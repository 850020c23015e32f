import SessionPool.Json.Record
import SessionPool.Proofs.Json.Deciding

/-!
# Records that are read from objects

What an object makes of a record, for any members in any order. `Means name v update` says what a
value of a known member stands for, as a change of the record. A foreign member changes nothing, a
known one makes its change unless it was seen before,

    record.Course Means seen acc ms seen' a,

and an object is read exactly when its members have such a course and all that is required was seen.
-/

namespace SessionPool.Json.Record

variable {σ : Type} {record : Record σ} {Means : String → Datum → (σ → σ) → Prop}

/-! ### The course of the members -/

/-- What one member does to the names seen and to the record. -/
inductive Step (record : Record σ) (Means : String → Datum → (σ → σ) → Prop) :
    List String → σ → String × Datum → List String → σ → Prop
  | foreign {seen acc name v} : record.member? name = none →
      Step record Means seen acc (name, v) seen acc
  | known {seen acc name v member update} : record.member? name = some member → name ∉ seen →
      Means name v update → Step record Means seen acc (name, v) (name :: seen) (update acc)

/-- What the members do, one after the other. -/
inductive Course (record : Record σ) (Means : String → Datum → (σ → σ) → Prop) :
    List String → σ → List (String × Datum) → List String → σ → Prop
  | nil {seen acc} : Course record Means seen acc [] seen acc
  | cons {seen acc m seen₁ acc₁ ms seen₂ acc₂} : record.Step Means seen acc m seen₁ acc₁ →
      Course record Means seen₁ acc₁ ms seen₂ acc₂ →
      Course record Means seen acc (m :: ms) seen₂ acc₂

/-- All that is required has been seen. -/
def Complete (record : Record σ) (seen : List String) : Prop :=
  ∀ m ∈ record.members, m.required = true → m.name ∈ seen

/-- The readers of the members read the values of an object as `Means` says. -/
def ReadsMembers (record : Record σ) (Means : String → Datum → (σ → σ) → Prop)
    (ms : List (String × Datum)) : Prop :=
  ∀ name v, (name, v) ∈ ms → ∀ member, record.member? name = some member →
    member.value.Reads v (Means name v)

theorem step_foreign_iff {seen seen' : List String} {acc acc' : σ} {name : String} {v : Datum}
    (h : record.member? name = none) :
    record.Step Means seen acc (name, v) seen' acc' ↔ seen' = seen ∧ acc' = acc := by
  constructor
  · intro hstep
    cases hstep with
    | foreign => exact ⟨rfl, rfl⟩
    | known hknown => rw [h] at hknown; cases hknown
  · rintro ⟨rfl, rfl⟩
    exact .foreign h

theorem step_known_iff {seen seen' : List String} {acc acc' : σ} {name : String} {v : Datum}
    {member : Member σ} (h : record.member? name = some member) :
    record.Step Means seen acc (name, v) seen' acc' ↔
      name ∉ seen ∧ ∃ update, Means name v update ∧ seen' = name :: seen ∧ acc' = update acc := by
  constructor
  · intro hstep
    cases hstep with
    | foreign hforeign => rw [h] at hforeign; cases hforeign
    | known _ hnew hmeans => exact ⟨hnew, _, hmeans, rfl, rfl⟩
  · rintro ⟨hnew, update, hmeans, rfl, rfl⟩
    exact .known h hnew hmeans

/-! ### Parts of an object -/

theorem readName_denotes {q cs : List Char} (hq : DenotesText q cs) (rest : List Char) :
    readName ('"' :: (q ++ rest)) = .ok (String.ofList cs, rest) := by
  rw [readName, readText_append hq]
  rfl

theorem skipColon_gap {g : List Char} (hg : IsGap g) (rest : List Char) :
    skipColon (g ++ ':' :: rest) = .ok rest := by
  rw [skipColon, skipBlanks_gap_cons hg (by simp [IsSpace])]
  rfl

theorem nextMember_brace {g : List Char} (hg : IsGap g) (rest : List Char) :
    nextMember (g ++ '}' :: rest) = .ok none := by
  rw [nextMember, skipBlanks_gap_cons hg (by simp [IsSpace])]
  rfl

theorem nextMember_comma {g h s : List Char} {ms : List (String × Datum)} (hg : IsGap g)
    (hh : IsGap h) (hs : DenotesMembers s ms) (rest : List Char) :
    nextMember (g ++ ',' :: (h ++ (s ++ rest))) = .ok (some (s ++ rest)) := by
  obtain ⟨t, rfl⟩ := hs.exists_cons
  rw [nextMember, skipBlanks_gap_cons hg (by simp [IsSpace])]
  simp only [List.cons_append, skipBlanks_gap_cons hh (show ¬ IsSpace '"' by simp [IsSpace])]
  rfl

/-! ### Reading the members -/

theorem readMember_eq_ok_iff {name : String} {v : Datum} {g h s rest : List Char}
    (hreads : ∀ member, record.member? name = some member → member.value.Reads v (Means name v))
    (hg : IsGap g) (hh : IsGap h) (hs : Denotes s v) (hrest : EndsNumeral rest)
    (seen : List String) (acc : σ) (seen' : List String) (acc' : σ) (rest' : List Char) :
    record.readMember name seen acc (g ++ ':' :: (h ++ (s ++ rest))) =
        .ok (seen', acc', rest') ↔
      record.Step Means seen acc (name, v) seen' acc' ∧ rest' = rest := by
  have hcolon := skipColon_gap hg (h ++ (s ++ rest))
  rw [readMember]
  -- A foreign member is skipped. A known one is refused if it was seen, and read if it is new.
  cases hmember : record.member? name with
  | none =>
    have hskip : skipValue [] (h ++ (s ++ rest)) = .ok rest := by
      rw [skipValue_append hs [] hh hrest, skipOn]
    rw [step_foreign_iff hmember]
    simp [hcolon, hskip, bind, Except.bind, pure, Except.pure, eq_comm, and_assoc]
  | some member =>
    have hread := hreads member hmember h s rest hh hs hrest
    rw [step_known_iff hmember]
    by_cases hseen : name ∈ seen
    · simp [hseen]
    · have hcontains : seen.contains name = false := by simpa using hseen
      simp only [hcontains, hcolon]
      show (member.value.run _ >>= _) = _ ↔ _
      rw [bind_eq_ok_iff]
      constructor
      · rintro ⟨⟨update, left⟩, hrun, heq⟩
        obtain ⟨hmeans, rfl⟩ := (hread update left).mp hrun
        cases heq
        exact ⟨⟨hseen, update, hmeans, rfl, rfl⟩, rfl⟩
      · rintro ⟨⟨-, update, hmeans, rfl, rfl⟩, rfl⟩
        exact ⟨(update, rest'), (hread update rest').mpr ⟨hmeans, rfl⟩, rfl⟩

/-- Everything that is required has been seen. -/
theorem finishObject_of_complete {seen : List String} {g : List Char} (acc : σ)
    (hrequired : ∀ m ∈ record.members, m.required = true → m.name ∈ seen) (hg : IsGap g)
    (rest : List Char) : record.finishObject seen acc (g ++ '}' :: rest) = .ok (acc, rest) := by
  have hmissing : record.missing? seen = none := by
    apply List.find?_eq_none.mpr
    intro m hm
    simpa using hrequired m hm
  have hpast : pastBrace (g ++ '}' :: rest) = rest := by
    rw [pastBrace, skipBlanks_gap_cons hg (by simp [IsSpace])]
    rfl
  rw [finishObject, hmissing, hpast]

theorem finishObject_eq_ok_iff {seen : List String} {acc a : σ} {g rest rest' : List Char}
    (hg : IsGap g) :
    record.finishObject seen acc (g ++ '}' :: rest) = .ok (a, rest') ↔
      record.Complete seen ∧ a = acc ∧ rest' = rest := by
  by_cases hcomplete : record.Complete seen
  · rw [finishObject_of_complete acc hcomplete hg]
    simp [hcomplete, eq_comm]
  · have hmissing : record.missing? seen ≠ none := by
      intro hnone
      apply hcomplete
      intro m hm hr
      simpa [hr] using List.find?_eq_none.mp hnone m hm
    obtain ⟨m, hm⟩ := Option.ne_none_iff_exists'.mp hmissing
    rw [finishObject, hm]
    simp [hcomplete]

/-- What the members from the first to the closing brace make of the record. -/
def Finishes (record : Record σ) (Means : String → Datum → (σ → σ) → Prop) (seen : List String)
    (acc : σ) (ms : List (String × Datum)) (a : σ) : Prop :=
  ∃ seen', record.Course Means seen acc ms seen' a ∧ record.Complete seen'

theorem finishes_nil_iff {seen : List String} {acc a : σ} :
    record.Finishes Means seen acc [] a ↔ record.Complete seen ∧ a = acc := by
  constructor
  · rintro ⟨_, ⟨⟩, hcomplete⟩
    exact ⟨hcomplete, rfl⟩
  · rintro ⟨hcomplete, rfl⟩
    exact ⟨seen, .nil, hcomplete⟩

theorem finishes_cons_iff {seen : List String} {acc a : σ} {m : String × Datum}
    {ms : List (String × Datum)} :
    record.Finishes Means seen acc (m :: ms) a ↔
      ∃ seen' acc', record.Step Means seen acc m seen' acc' ∧
        record.Finishes Means seen' acc' ms a := by
  constructor
  · rintro ⟨seen', hcourse, hcomplete⟩
    cases hcourse with
    | cons hstep hothers => exact ⟨_, _, hstep, seen', hothers, hcomplete⟩
  · rintro ⟨seen', acc', hstep, seen'', hothers, hcomplete⟩
    exact ⟨seen'', .cons hstep hothers, hcomplete⟩

/-- One round of reading the members; `next` is where the next one starts, if there is one. -/
theorem readMembers_append_eq_ok_iff {s rest : List Char} {m : String × Datum}
    (hreads : ∀ member, record.member? m.1 = some member → member.value.Reads m.2 (Means m.1 m.2))
    (hm : DenotesMember s m) (hrest : EndsNumeral rest) {next : Option (List Char)}
    (hnext : nextMember rest = .ok next) (seen : List String) (acc : σ) {p : σ × List Char} :
    record.readMembers seen acc (s ++ rest) = .ok p ↔
      ∃ seen' acc', record.Step Means seen acc m seen' acc' ∧
        next.elim (record.finishObject seen' acc' rest) (record.readMembers seen' acc') =
          .ok p := by
  cases hm with
  | mk hq hg hh hv =>
    have hmember := readMember_eq_ok_iff hreads hg hh hv hrest seen acc
    simp only [List.cons_append, List.append_assoc]
    rw [readMembers_eq_bind, readName_denotes hq]
    show (record.readMember _ seen acc _ >>= _) = _ ↔ _
    rw [bind_eq_ok_iff]
    constructor
    · rintro ⟨⟨seen', acc', rest'⟩, hread, hgo⟩
      obtain ⟨hstep, rfl⟩ := (hmember seen' acc' rest').mp hread
      refine ⟨seen', acc', hstep, ?_⟩
      dsimp only at hgo
      rw [hnext] at hgo
      cases next <;> exact hgo
    · rintro ⟨seen', acc', hstep, hgo⟩
      refine ⟨(seen', acc', rest), (hmember seen' acc' rest).mpr ⟨hstep, rfl⟩, ?_⟩
      dsimp only
      rw [hnext]
      cases next <;> exact hgo

/-- By the members, from any names seen before. -/
theorem readMembers_eq_ok_iff {ms : List (String × Datum)} (hreads : record.ReadsMembers Means ms)
    {s : List Char} (hs : DenotesMembers s ms) (seen : List String) (acc : σ) {a : σ}
    {rest rest' : List Char} :
    record.readMembers seen acc (s ++ rest) = .ok (a, rest') ↔
      record.Finishes Means seen acc ms a ∧ rest' = rest := by
  induction ms generalizing s seen acc with
  | nil => cases hs
  | cons m ms ih =>
    have hfirst := hreads m.1 m.2 List.mem_cons_self
    have hothers : record.ReadsMembers Means ms :=
      fun name v hmem => hreads name v (List.mem_cons_of_mem m hmem)
    rw [finishes_cons_iff]
    cases hs with
    | @last _ _ g hm hg =>
      have hends := endsNumeral_gap hg (endsNumeral_cons (c := '}') (by decide) rest)
      have hnext := nextMember_brace hg rest
      have hround {p} := readMembers_append_eq_ok_iff hfirst hm hends hnext seen acc (p := p)
      simp only [List.append_assoc, List.cons_append, List.nil_append] at hround ⊢
      rw [hround]
      simp only [Option.elim_none, finishObject_eq_ok_iff hg, finishes_nil_iff]
      grind
    | @cons _ _ g k t _ hm hg hk hms =>
      have hends := endsNumeral_gap hg (endsNumeral_cons (c := ',') (by decide) (k ++ (t ++ rest)))
      have hnext := nextMember_comma hg hk hms rest
      have hround {p} := readMembers_append_eq_ok_iff hfirst hm hends hnext seen acc (p := p)
      simp only [List.append_assoc, List.cons_append] at hround ⊢
      rw [hround]
      simp only [Option.elim_some, ih hothers hms _ _]
      grind

/-- Records are read from objects by the course of the members. -/
theorem reads_members {ms : List (String × Datum)} (hreads : record.ReadsMembers Means ms) :
    record.reader.Reads (.object ms) (record.Finishes Means [] record.absent ms) := by
  intro g s rest hg hs hrest a rest'
  show record.read _ = _ ↔ _
  rw [read, skipBlanks_denotes hg hs]
  cases hs with
  | emptyObject hk =>
    simp only [List.cons_append, List.append_assoc, List.nil_append, readObject, firstMember,
      skipBlanks_gap_cons hk (show ¬ IsSpace '\x7d' by simp [IsSpace]), bind, Except.bind,
      finishObject_eq_ok_iff hk, finishes_nil_iff, and_assoc]
  | object hk hms =>
    rw [← readMembers_eq_ok_iff hreads hms [] record.absent]
    obtain ⟨t, rfl⟩ := hms.exists_cons
    simp only [List.cons_append, List.append_assoc, readObject, firstMember,
      skipBlanks_gap_cons hk (show ¬ IsSpace '"' by simp [IsSpace])]
    rfl

/-- Nothing but an object or a list is taken for a record. -/
theorem reads_object {v : Datum} (hlist : ∀ vs, v ≠ .list vs)
    (hreads : ∀ ms, v = .object ms → record.ReadsMembers Means ms) :
    record.reader.Reads v fun a =>
      ∃ ms, v = .object ms ∧ record.Finishes Means [] record.absent ms a := by
  by_cases hobject : ∃ ms, v = .object ms
  · obtain ⟨ms, rfl⟩ := hobject
    apply (reads_members (hreads ms rfl)).congr
    grind
  · intro g s rest hg hs hrest a rest'
    show record.read _ = _ ↔ _
    rw [read, skipBlanks_denotes hg hs]
    obtain ⟨c, t, rfl, hc⟩ := hs.exists_cons
    split
    · next heq =>
      obtain ⟨rfl, -⟩ := List.cons.inj heq
      exact absurd hc.exists_object hobject
    · next heq =>
      obtain ⟨rfl, -⟩ := List.cons.inj heq
      obtain ⟨vs, rfl⟩ := hc.exists_list
      exact absurd rfl (hlist vs)
    · have hnone : ¬ ∃ ms, v = .object ms ∧ record.Finishes Means [] record.absent ms a := by
        rintro ⟨ms, hms, -⟩
        exact hobject ⟨ms, hms⟩
      simp [hnone]

end SessionPool.Json.Record
