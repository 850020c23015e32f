import SessionPool.Json.Numeral
import SessionPool.Json.Quotation

/-!
# Values that nobody wants to know

A value that is skipped must still be well formed, to any depth. The walk keeps the brackets that
are open, so nothing but the length of the text bounds it.
-/

namespace SessionPool.Json

/-- The text behind the white space of the format: space, tab, line feed, carriage return. -/
def skipBlanks (s : List Char) : List Char :=
  s.dropWhile fun c => c == ' ' || c == '\t' || c == '\n' || c == '\r'

theorem skipBlanks_le (s : List Char) : (skipBlanks s).length ≤ s.length :=
  length_dropWhile_le _ s

/-- The rest of a literal, character by character. -/
def readLiteral : List Char → List Char → Except Fault (List Char)
  | [], s => .ok s
  | _ :: _, [] => .error (.before .endInValue [])
  | w :: word, c :: s =>
    if c = w then readLiteral word s else .error (.onFirst .expectedLiteral (c :: s))

theorem readLiteral_le {word s rest : List Char} (h : readLiteral word s = .ok rest) :
    rest.length ≤ s.length := by
  induction word generalizing s with
  | nil =>
    cases h
    exact Nat.le_refl _
  | cons w word ih =>
    cases s with
    | nil => cases h
    | cons c s =>
      simp only [readLiteral] at h
      split at h
      · have := ih h
        simp only [List.length_cons]
        omega
      · cases h

/-- What is left behind a value that is neither list nor object. -/
def skipScalar (s : List Char) : Except Fault (List Char) :=
  match s with
  | [] => .error (.onFirst .endInValue [])
  | 'n' :: rest => readLiteral ['u', 'l', 'l'] rest
  | 't' :: rest => readLiteral ['r', 'u', 'e'] rest
  | 'f' :: rest => readLiteral ['a', 'l', 's', 'e'] rest
  | '"' :: rest => skipText rest
  | c :: _ =>
    if c = '-' ∨ c.isDigit then skipNumber s else .error (.onFirst .expectedValue s)

theorem skipText_shorter {s rest : List Char} (h : skipText s = .ok rest) :
    rest.length < s.length := by
  fun_induction skipText s with
  | case1 => cases h
  | case2 =>
    cases h
    simp
  | case3 => cases h
  | case4 s s' hs ih =>
    have := skipEscape_shorter hs
    have := ih h
    simp only [List.length_cons]
    omega
  | case5 => cases h
  | case6 s c rest' _ _ ih =>
    have := ih h
    simp only [List.length_cons]
    omega

theorem skipScalar_shorter {s rest : List Char} (h : skipScalar s = .ok rest) :
    rest.length < s.length := by
  unfold skipScalar at h
  split at h
  · cases h
  · exact Nat.lt_succ_of_le (readLiteral_le h)
  · exact Nat.lt_succ_of_le (readLiteral_le h)
  · exact Nat.lt_succ_of_le (readLiteral_le h)
  · exact Nat.lt_succ_of_lt (skipText_shorter h)
  · split at h
    · exact skipNumber_shorter h
    · cases h

/-- What is left behind the name of a member and its colon. -/
def skipName (s : List Char) : Except Fault (List Char) :=
  match s with
  | [] => .error (.onFirst .endInObject [])
  | '"' :: s => do
    let s ← skipText s
    match skipBlanks s with
    | [] => .error (.onFirst .endInObject [])
    | ':' :: rest => .ok rest
    | s => .error (.onFirst .expectedColon s)
  | s => .error (.onFirst .nameNotText s)

theorem skipName_shorter {s rest : List Char} (h : skipName s = .ok rest) :
    rest.length < s.length := by
  unfold skipName at h
  split at h
  · cases h
  · obtain ⟨p, hs, h⟩ := exists_of_bind_eq_ok h
    have := skipText_shorter hs
    have := skipBlanks_le p
    split at h
    · cases h
    · rename_i hp
      cases h
      simp only [hp, List.length_cons] at *
      omega
    · cases h
  · cases h

/-- An open bracket. -/
inductive Bracket where
  | list
  | object
  deriving DecidableEq, Repr

mutual

/-- Skips one value and then whatever ends the values around it. -/
def skipValue (enclosing : List Bracket) (s : List Char) : Except Fault (List Char) :=
  have := skipBlanks_le s
  match _hs : skipBlanks s with
  | '[' :: inner =>
    have := skipBlanks_le inner
    match _hi : skipBlanks inner with
    | [] => .error (.onFirst .endInList [])
    | ']' :: rest => skipOn enclosing rest
    | first => skipValue (.list :: enclosing) first
  | '{' :: inner =>
    have := skipBlanks_le inner
    match _hi : skipBlanks inner with
    | '}' :: rest => skipOn enclosing rest
    | first =>
      match _hn : skipName first with
      | .error fault => .error fault
      | .ok value => skipValue (.object :: enclosing) value
  | scalar =>
    match _hc : skipScalar scalar with
    | .error fault => .error fault
    | .ok rest => skipOn enclosing rest
termination_by s.length
decreasing_by
  all_goals simp_all only [List.length_cons]
  · omega
  · omega
  · omega
  · have := skipName_shorter _hn
    omega
  · have := skipScalar_shorter _hc
    omega

/-- Goes on behind a value: to the next one inside the innermost bracket, or out of it. -/
def skipOn (enclosing : List Bracket) (s : List Char) : Except Fault (List Char) :=
  match enclosing with
  | [] => .ok s
  | .list :: outer =>
    have := skipBlanks_le s
    match _hs : skipBlanks s with
    | [] => .error (.onFirst .endInList [])
    | ',' :: next => skipValue (.list :: outer) next
    | ']' :: rest => skipOn outer rest
    | s => .error (.onFirst .expectedListEnd s)
  | .object :: outer =>
    have := skipBlanks_le s
    match _hs : skipBlanks s with
    | [] => .error (.onFirst .endInObject [])
    | ',' :: next =>
      have := skipBlanks_le next
      match _hn : skipName (skipBlanks next) with
      | .error fault => .error fault
      | .ok value => skipValue (.object :: outer) value
    | '}' :: rest => skipOn outer rest
    | s => .error (.onFirst .expectedObjectEnd s)
termination_by s.length
decreasing_by
  all_goals simp_all only [List.length_cons]
  · omega
  · omega
  · have := skipName_shorter _hn
    omega
  · omega

end

mutual

theorem skipValue_shorter {enclosing : List Bracket} {s rest : List Char}
    (h : skipValue enclosing s = .ok rest) : rest.length < s.length := by
  have hle := skipBlanks_le s
  rw [skipValue] at h
  split at h
  · rename_i inner hs
    have := skipBlanks_le inner
    rw [hs, List.length_cons] at hle
    split at h
    · cases h
    · rename_i hi
      have := skipOn_le h
      simp_all only [List.length_cons]
      omega
    · have := skipValue_shorter h
      simp_all only
      omega
  · rename_i inner hs
    have := skipBlanks_le inner
    rw [hs, List.length_cons] at hle
    split at h
    · rename_i hi
      have := skipOn_le h
      simp_all only [List.length_cons]
      omega
    · split at h
      · cases h
      · rename_i hn
        have := skipName_shorter hn
        have := skipValue_shorter h
        simp_all only
        omega
  · split at h
    · cases h
    · rename_i hc
      have := skipScalar_shorter hc
      have := skipOn_le h
      omega
termination_by s.length
decreasing_by
  all_goals
    simp_all only [List.length_cons]
    omega

theorem skipOn_le {enclosing : List Bracket} {s rest : List Char}
    (h : skipOn enclosing s = .ok rest) : rest.length ≤ s.length := by
  have := skipBlanks_le s
  rw [skipOn.eq_def] at h
  split at h
  · cases h
    exact Nat.le_refl _
  · split at h
    · cases h
    · have := skipValue_shorter h
      simp_all only [List.length_cons]
      omega
    · have := skipOn_le h
      simp_all only [List.length_cons]
      omega
    · cases h
  · split at h
    · cases h
    · rename_i inner hs
      have := skipBlanks_le inner
      split at h
      · cases h
      · rename_i hn
        have := skipName_shorter hn
        have := skipValue_shorter h
        simp_all only [List.length_cons]
        omega
    · have := skipOn_le h
      simp_all only [List.length_cons]
      omega
    · cases h
termination_by s.length
decreasing_by
  all_goals
    simp_all only [List.length_cons]
    omega

end

end SessionPool.Json
