import SessionPool.Json.Reader

/-!
# Readers of records

A record is read from an object, whose members come in any order, or from a list, whose elements
come in the order of declaration. Members that the record does not know are skipped. A member that
is absent keeps the value it has in `absent`, unless it is required.
-/

namespace SessionPool.Json

/-- One member of a record of type `σ`: a value that is read becomes a change of the record. -/
structure Member (σ : Type) where
  name : String
  required : Bool
  value : Reader (σ → σ)

/-- What a record is called, what it is without any member, and its members as declared. -/
structure Record (σ : Type) where
  name : String
  absent : σ
  members : List (Member σ)

namespace Record

variable {σ : Type}

/-- The member of a given name. -/
def member? (record : Record σ) (name : String) : Option (Member σ) :=
  record.members.find? (·.name == name)

/-- The first required member that is not among those seen. -/
def missing? (record : Record σ) (seen : List String) : Option (Member σ) :=
  record.members.find? fun m => m.required && !seen.contains m.name

/-! ### Objects -/

/-- The name at the front of a text, its quote and the text behind it; `s` starts where a name
must. -/
def readName (s : List Char) : Except Fault (String × List Char) :=
  match s with
  | '"' :: s => (readText s).map fun (name, rest) => (String.ofList name, rest)
  | s => .error (.onFirst .nameNotText s)

/-- Where the next member starts behind the one before it, if there is one. -/
def nextMember (s : List Char) : Except Fault (Option (List Char)) :=
  match skipBlanks s with
  | [] => .error (.onFirst .endInObject [])
  | '}' :: _ => .ok none
  | ',' :: s =>
    match skipBlanks s with
    | [] => .error (.onFirst .endInValue [])
    | '}' :: rest => .error (.onFirst .trailingComma ('}' :: rest))
    | s => .ok (some s)
  | s => .error (.onFirst .expectedObjectEnd s)

/-- Where the first member starts, if there is one. -/
def firstMember (s : List Char) : Except Fault (Option (List Char)) :=
  match skipBlanks s with
  | [] => .error (.onFirst .endInObject [])
  | '}' :: _ => .ok none
  | s => .ok (some s)

/-- What is left behind the colon that separates a name from its value. -/
def skipColon (s : List Char) : Except Fault (List Char) :=
  match skipBlanks s with
  | [] => .error (.onFirst .endInObject [])
  | ':' :: s => .ok s
  | s => .error (.onFirst .expectedColon s)

/-- What is left behind a closing brace, if one comes next. -/
def pastBrace (s : List Char) : List Char :=
  match skipBlanks s with
  | '}' :: s => s
  | s => s

theorem readName_shorter {s rest : List Char} {name : String}
    (h : readName s = .ok (name, rest)) : rest.length < s.length := by
  unfold readName at h
  split at h
  · obtain ⟨p, hr, h⟩ := exists_of_map_eq_ok h
    cases h
    exact Nat.lt_succ_of_lt (readText_shorter hr)
  · cases h

theorem skipColon_le {s rest : List Char} (h : skipColon s = .ok rest) :
    rest.length ≤ s.length := by
  have := skipBlanks_le s
  unfold skipColon at h
  split at h
  · cases h
  · rename_i hs
    cases h
    rw [hs, List.length_cons] at this
    omega
  · cases h

theorem nextMember_le {s rest : List Char} (h : nextMember s = .ok (some rest)) :
    rest.length ≤ s.length := by
  have hle := skipBlanks_le s
  unfold nextMember at h
  split at h
  case h_3 inner hs =>
    have := skipBlanks_le inner
    rw [hs, List.length_cons] at hle
    split at h
    · cases h
    · cases h
    · cases h
      omega
  all_goals cases h

theorem firstMember_le {s rest : List Char} (h : firstMember s = .ok (some rest)) :
    rest.length ≤ s.length := by
  have := skipBlanks_le s
  unfold firstMember at h
  split at h
  · cases h
  · cases h
  · cases h
    exact this

/-- Reads the value of a member into the record, or skips it when the record has no such member.
Its name is followed by `s`. A name seen before is refused behind the end of the object, if that
is what follows it. -/
def readMember (record : Record σ) (name : String) (seen : List String) (acc : σ)
    (s : List Char) : Except Fault (List String × σ × List Char) :=
  match record.member? name with
  | none => do
    let s ← skipColon s
    let rest ← skipValue [] s
    return (seen, acc, rest)
  | some member =>
    if seen.contains name then .error (.before (.repeatedMember name) (pastBrace s))
    else do
      let s ← skipColon s
      let (update, rest) ← member.value.run s
      return (name :: seen, update acc, rest)

theorem readMember_shorter {record : Record σ} {name : String} {seen seen' : List String}
    {acc acc' : σ} {s rest : List Char}
    (h : record.readMember name seen acc s = .ok (seen', acc', rest)) : rest.length < s.length := by
  unfold readMember at h
  split at h
  · obtain ⟨value, hc, h⟩ := exists_of_bind_eq_ok h
    obtain ⟨left, hv, h⟩ := exists_of_bind_eq_ok h
    have := skipColon_le hc
    have := skipValue_shorter hv
    cases h
    omega
  · split at h
    · cases h
    · obtain ⟨value, hc, h⟩ := exists_of_bind_eq_ok h
      obtain ⟨⟨update, left⟩, hv, h⟩ := exists_of_bind_eq_ok h
      have := skipColon_le hc
      have := Reader.progress _ hv
      cases h
      omega

/-- Leaves the object at its closing brace, all required members having been seen. -/
def finishObject (record : Record σ) (seen : List String) (acc : σ) (s : List Char) :
    Except Fault (σ × List Char) :=
  match record.missing? seen with
  | some m => .error (.before (.missingMember m.name) (pastBrace s))
  | none => .ok (acc, pastBrace s)

/-- Reads the members from the one that starts here to the closing brace. -/
def readMembers (record : Record σ) (seen : List String) (acc : σ) (s : List Char) :
    Except Fault (σ × List Char) :=
  match _hn : readName s with
  | .error fault => .error fault
  | .ok (name, value) =>
    match _hm : record.readMember name seen acc value with
    | .error fault => .error fault
    | .ok (seen, acc, s) =>
      match _hx : nextMember s with
      | .error fault => .error fault
      | .ok none => record.finishObject seen acc s
      | .ok (some s) => record.readMembers seen acc s
termination_by s.length
decreasing_by
  have := readName_shorter _hn
  have := readMember_shorter _hm
  have := nextMember_le _hx
  omega

/-- One member after the other. -/
theorem readMembers_eq_bind (record : Record σ) (seen : List String) (acc : σ) (s : List Char) :
    record.readMembers seen acc s = (do
      let (name, value) ← readName s
      let (seen, acc, rest) ← record.readMember name seen acc value
      match ← nextMember rest with
      | none => record.finishObject seen acc rest
      | some s => record.readMembers seen acc s) := by
  rw [readMembers]
  simp only [bind, Except.bind]
  grind

/-- Reads an object behind its opening brace. -/
def readObject (record : Record σ) (s : List Char) : Except Fault (σ × List Char) := do
  match ← firstMember s with
  | none => record.finishObject [] record.absent s
  | some s => record.readMembers [] record.absent s

/-! ### Lists -/

/-- Leaves the list at its closing bracket, all members having been read. -/
def finishList (acc : σ) (s : List Char) : Except Fault (σ × List Char) :=
  match skipBlanks s with
  | [] => .error (.onFirst .endInList [])
  | ']' :: rest => .ok (acc, rest)
  | ',' :: s =>
    match skipBlanks s with
    | ']' :: rest => .error (.onFirst .trailingComma (']' :: rest))
    | s => .error (.onFirst .trailingCharacters s)
  | s => .error (.onFirst .trailingCharacters s)

/-- Where the next element starts, if the list goes on; `first` tells that none came before. -/
def nextElement (first : Bool) (s : List Char) : Except Fault (Option (List Char)) :=
  match skipBlanks s with
  | [] => .error (.onFirst .endInList [])
  | ']' :: _ => .ok none
  | c :: s =>
    if first then .ok (some (c :: s))
    else if c = ',' then
      match skipBlanks s with
      | [] => .error (.onFirst .endInValue [])
      | ']' :: rest => .error (.onFirst .trailingComma (']' :: rest))
      | s => .ok (some s)
    else .error (.onFirst .expectedListEnd (c :: s))

/-- What is left behind a closing bracket, if one comes next. -/
def pastBracket (s : List Char) : List Char :=
  match skipBlanks s with
  | ']' :: s => s
  | s => s

/-- Reads the elements for the given members, `count` elements having been read before. -/
def readElements (record : Record σ) (count : Nat) (acc : σ) (s : List Char) :
    List (Member σ) → Except Fault (σ × List Char)
  | [] => finishList acc s
  | member :: members => do
    match ← nextElement (count == 0) s with
    | none =>
      if member.required then
        throw (.before (.invalidLength count
          s!"{record.name} with {record.members.length} elements") (pastBracket s))
      else record.readElements (count + 1) acc s members
    | some s =>
      let (update, s) ← member.value.run s
      record.readElements (count + 1) (update acc) s members

/-- Reads a list behind its opening bracket. -/
def readList (record : Record σ) (s : List Char) : Except Fault (σ × List Char) :=
  record.readElements 0 record.absent s record.members

/-! ### The reader -/

/-- Reads a record in either form. -/
def read (record : Record σ) (s : List Char) : Except Fault (σ × List Char) :=
  match skipBlanks s with
  | '{' :: s => record.readObject s
  | '[' :: s => record.readList s
  | s => .error (mismatch record.name s)

theorem pastBrace_le (s : List Char) : (pastBrace s).length ≤ s.length := by
  have := skipBlanks_le s
  unfold pastBrace
  split
  · rename_i hs
    rw [hs, List.length_cons] at this
    omega
  · exact this

theorem finishObject_le {record : Record σ} {seen : List String} {acc a : σ} {s rest : List Char}
    (h : record.finishObject seen acc s = .ok (a, rest)) : rest.length ≤ s.length := by
  unfold finishObject at h
  split at h
  · cases h
  · cases h
    exact pastBrace_le s

theorem readMembers_le {record : Record σ} {seen : List String} {acc a : σ} {s rest : List Char}
    (h : record.readMembers seen acc s = .ok (a, rest)) : rest.length ≤ s.length := by
  fun_induction readMembers record seen acc s with
  | case1 => cases h
  | case2 => cases h
  | case3 => cases h
  | case4 _ _ _ _ _ hn _ _ _ hm hx =>
    have := readName_shorter hn
    have := readMember_shorter hm
    have := finishObject_le h
    omega
  | case5 _ _ _ _ _ hn _ _ _ hm _ hx ih =>
    have := readName_shorter hn
    have := readMember_shorter hm
    have := nextMember_le hx
    have := ih h
    omega

theorem readObject_le {record : Record σ} {a : σ} {s rest : List Char}
    (h : record.readObject s = .ok (a, rest)) : rest.length ≤ s.length := by
  obtain ⟨first, hf, h⟩ := exists_of_bind_eq_ok h
  cases first with
  | none => exact finishObject_le h
  | some s =>
    have := firstMember_le hf
    have := readMembers_le h
    omega

theorem finishList_le {acc a : σ} {s rest : List Char} (h : finishList acc s = .ok (a, rest)) :
    rest.length ≤ s.length := by
  have := skipBlanks_le s
  unfold finishList at h
  split at h
  · cases h
  · rename_i hs
    cases h
    rw [hs, List.length_cons] at this
    omega
  · split at h <;> cases h
  · cases h

theorem nextElement_le {first : Bool} {s rest : List Char}
    (h : nextElement first s = .ok (some rest)) : rest.length ≤ s.length := by
  have hle := skipBlanks_le s
  unfold nextElement at h
  split at h
  · cases h
  · cases h
  · rename_i c inner _ hs
    have := skipBlanks_le inner
    rw [hs, List.length_cons] at hle
    split at h
    · cases h
      exact hle
    · split at h
      · split at h
        · cases h
        · cases h
        · cases h
          omega
      · cases h

theorem readElements_le {record : Record σ} {members : List (Member σ)} {count : Nat} {acc a : σ}
    {s rest : List Char} (h : record.readElements count acc s members = .ok (a, rest)) :
    rest.length ≤ s.length := by
  induction members generalizing count acc s with
  | nil => exact finishList_le h
  | cons member members ih =>
    obtain ⟨next, hn, h⟩ := exists_of_bind_eq_ok h
    cases next with
    | none =>
      dsimp only at h
      split at h
      · cases h
      · exact ih h
    | some element =>
      obtain ⟨⟨update, left⟩, hv, h⟩ := exists_of_bind_eq_ok h
      have := nextElement_le hn
      have := Reader.progress _ hv
      have := ih h
      omega

/-- The reader of a record. -/
def reader (record : Record σ) : Reader σ where
  run := record.read
  progress {s rest a} h := by
    have hle := skipBlanks_le s
    unfold read at h
    split at h
    · rename_i hs
      have := readObject_le h
      rw [hs, List.length_cons] at hle
      omega
    · rename_i hs
      have := readElements_le h
      rw [hs, List.length_cons] at hle
      omega
    · cases h

end Record

end SessionPool.Json
