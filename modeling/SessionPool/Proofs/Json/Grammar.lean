import SessionPool.Proofs.Json.Numerals
import SessionPool.Proofs.Json.Quotations

/-!
# Well-formed texts

A text *denotes* a datum when it is built by the rules of the format: any gaps between the parts,
numbers and texts in any of the ways to write them, members in any order and of any names. A number
stays as it is written, since what it stands for is up to its reader.

A value that nobody wants to know is skipped to its end, whatever it denotes,

    skipValue [] (g ++ (s ++ rest)) = ok rest.
-/

namespace SessionPool.Json

open Value

/-! ### The format -/

/-- What a text can denote. The members of an object keep their order, and a name may come twice. -/
inductive Datum where
  | null
  | boolean (value : Bool)
  | number (numeral : Numeral)
  | text (value : String)
  | list (elements : List Datum)
  | object (members : List (String × Datum))

mutual

/-- A text denotes a datum. -/
inductive Denotes : List Char → Datum → Prop
  | null : Denotes ['n', 'u', 'l', 'l'] .null
  | boolean (b : Bool) : Denotes (writeBoolean b) (.boolean b)
  | number {s n} : DenotesNumeral s n → Denotes s (.number n)
  | text {s cs} : DenotesText s cs → Denotes ('"' :: s) (.text (String.ofList cs))
  | emptyList {g} : IsGap g → Denotes ('[' :: (g ++ [']'])) (.list [])
  | list {g s vs} : IsGap g → DenotesElements s vs → Denotes ('[' :: (g ++ s)) (.list vs)
  | emptyObject {g} : IsGap g → Denotes ('{' :: (g ++ ['}'])) (.object [])
  | object {g s ms} : IsGap g → DenotesMembers s ms → Denotes ('{' :: (g ++ s)) (.object ms)

/-- A text denotes the elements of a list, from the first of them to the closing bracket. -/
inductive DenotesElements : List Char → List Datum → Prop
  | last {s v g} : Denotes s v → IsGap g → DenotesElements (s ++ (g ++ [']'])) [v]
  | cons {s v g h t vs} : Denotes s v → IsGap g → IsGap h → DenotesElements t vs →
      DenotesElements (s ++ (g ++ ',' :: (h ++ t))) (v :: vs)

/-- A text denotes the members of an object, from the first of them to the closing brace. -/
inductive DenotesMembers : List Char → List (String × Datum) → Prop
  | last {s m g} : DenotesMember s m → IsGap g → DenotesMembers (s ++ (g ++ ['}'])) [m]
  | cons {s m g h t ms} : DenotesMember s m → IsGap g → IsGap h → DenotesMembers t ms →
      DenotesMembers (s ++ (g ++ ',' :: (h ++ t))) (m :: ms)

/-- A text denotes a name and its value. -/
inductive DenotesMember : List Char → String × Datum → Prop
  | mk {q cs g h s v} : DenotesText q cs → IsGap g → IsGap h → Denotes s v →
      DenotesMember ('"' :: (q ++ (g ++ ':' :: (h ++ s)))) (String.ofList cs, v)

end

/-- A whole text: what denotes the datum, with nothing but gaps around it. -/
inductive WellFormed (text : String) (v : Datum) : Prop
  | mk {g s h} : IsGap g → Denotes s v → IsGap h → text.toList = g ++ (s ++ h) → WellFormed text v

/-! ### First characters -/

/-- What the text of a datum starts with. -/
def Datum.Starts : Datum → Char → Prop
  | null, c => c = 'n'
  | boolean b, c => c = if b then 't' else 'f'
  | number _, c => c = '-' ∨ c.isDigit = true
  | text _, c => c = '"'
  | list _, c => c = '['
  | object _, c => c = '{'

theorem Datum.Starts.not_isSpace {v : Datum} {c : Char} (h : v.Starts c) : ¬ IsSpace c := by
  rintro (rfl | rfl | rfl | rfl) <;> cases v <;> grind [Datum.Starts]

theorem Denotes.exists_cons {s : List Char} {v : Datum} (h : Denotes s v) :
    ∃ c t, s = c :: t ∧ v.Starts c := by
  cases h with
  | boolean b => cases b <;> exact ⟨_, _, rfl, rfl⟩
  | number hn => exact hn.exists_cons
  | _ => exact ⟨_, _, rfl, rfl⟩

theorem skipBlanks_denotes {g s : List Char} {v : Datum} (hg : IsGap g) (h : Denotes s v)
    (rest : List Char) : skipBlanks (g ++ (s ++ rest)) = s ++ rest := by
  obtain ⟨c, t, rfl, hc⟩ := h.exists_cons
  exact skipBlanks_gap_cons hg hc.not_isSpace (t ++ rest)

theorem DenotesElements.exists_cons {s : List Char} {vs : List Datum}
    (h : DenotesElements s vs) : ∃ c t, s = c :: t ∧ ¬ IsSpace c ∧ c ≠ ']' := by
  obtain ⟨s, u, v, rfl, hv⟩ : ∃ t u v, s = t ++ u ∧ Denotes t v := by
    cases h with
    | last hv => exact ⟨_, _, _, rfl, hv⟩
    | cons hv => exact ⟨_, _, _, rfl, hv⟩
  obtain ⟨c, t, rfl, hc⟩ := hv.exists_cons
  refine ⟨c, _, rfl, hc.not_isSpace, ?_⟩
  rintro rfl
  cases v <;> grind [Datum.Starts]

theorem DenotesMembers.exists_cons {s : List Char} {ms : List (String × Datum)}
    (h : DenotesMembers s ms) : ∃ t, s = '"' :: t := by
  cases h with
  | last hm =>
    cases hm
    exact ⟨_, rfl⟩
  | cons hm =>
    cases hm
    exact ⟨_, rfl⟩

/-! ### Skipping -/

section

variable {enclosing : List Bracket} {g h s rest : List Char}

/-- A value without brackets. -/
theorem skipValue_scalar {c : Char} (hg : IsGap g) (hc : ¬ IsSpace c) (hlist : c ≠ '[')
    (hobject : c ≠ '{') (hs : skipScalar (c :: s) = .ok rest) :
    skipValue enclosing (g ++ c :: s) = skipOn enclosing rest := by
  have hs := skipBlanks_gap_cons hg hc s
  rw [skipValue]
  grind

theorem skipValue_emptyList (hg : IsGap g) (hh : IsGap h) :
    skipValue enclosing (g ++ '[' :: (h ++ ']' :: rest)) = skipOn enclosing rest := by
  have hs := skipBlanks_gap_cons hg (c := '[') (by simp [IsSpace]) (h ++ ']' :: rest)
  have hi := skipBlanks_gap_cons hh (c := ']') (by simp [IsSpace]) rest
  rw [skipValue]
  grind

theorem skipValue_elements {vs : List Datum} (hg : IsGap g) (hh : IsGap h)
    (hvs : DenotesElements s vs) :
    skipValue enclosing (g ++ '[' :: (h ++ (s ++ rest))) =
      skipValue (.list :: enclosing) (s ++ rest) := by
  obtain ⟨c, t, rfl, hspace, hc⟩ := hvs.exists_cons
  have hs := skipBlanks_gap_cons hg (c := '[') (by simp [IsSpace]) (h ++ (c :: t ++ rest))
  have hi := skipBlanks_gap_cons hh hspace (t ++ rest)
  rw [skipValue]
  grind

theorem skipValue_emptyObject (hg : IsGap g) (hh : IsGap h) :
    skipValue enclosing (g ++ '{' :: (h ++ '}' :: rest)) = skipOn enclosing rest := by
  have hs := skipBlanks_gap_cons hg (c := '{') (by simp [IsSpace]) (h ++ '}' :: rest)
  have hi := skipBlanks_gap_cons hh (c := '}') (by simp [IsSpace]) rest
  rw [skipValue]
  grind

theorem skipValue_members {ms : List (String × Datum)} {value : List Char} (hg : IsGap g)
    (hh : IsGap h) (hms : DenotesMembers s ms) (hname : skipName (s ++ rest) = .ok value) :
    skipValue enclosing (g ++ '{' :: (h ++ (s ++ rest))) =
      skipValue (.object :: enclosing) value := by
  obtain ⟨t, rfl⟩ := hms.exists_cons
  have hs := skipBlanks_gap_cons hg (c := '{') (by simp [IsSpace]) (h ++ ('"' :: t ++ rest))
  have hi := skipBlanks_gap_cons hh (c := '"') (by simp [IsSpace]) (t ++ rest)
  rw [skipValue]
  grind

theorem skipOn_bracket (hg : IsGap g) :
    skipOn (.list :: enclosing) (g ++ ']' :: rest) = skipOn enclosing rest := by
  have hs := skipBlanks_gap_cons hg (c := ']') (by simp [IsSpace]) rest
  rw [skipOn]
  grind

theorem skipOn_element (hg : IsGap g) :
    skipOn (.list :: enclosing) (g ++ ',' :: rest) = skipValue (.list :: enclosing) rest := by
  have hs := skipBlanks_gap_cons hg (c := ',') (by simp [IsSpace]) rest
  rw [skipOn]
  grind

theorem skipOn_brace (hg : IsGap g) :
    skipOn (.object :: enclosing) (g ++ '}' :: rest) = skipOn enclosing rest := by
  have hs := skipBlanks_gap_cons hg (c := '}') (by simp [IsSpace]) rest
  rw [skipOn]
  grind

theorem skipOn_member {ms : List (String × Datum)} {value : List Char} (hg : IsGap g)
    (hh : IsGap h) (hms : DenotesMembers s ms) (hname : skipName (s ++ rest) = .ok value) :
    skipOn (.object :: enclosing) (g ++ ',' :: (h ++ (s ++ rest))) =
      skipValue (.object :: enclosing) value := by
  obtain ⟨t, rfl⟩ := hms.exists_cons
  have hs := skipBlanks_gap_cons hg (c := ',') (by simp [IsSpace]) (h ++ ('"' :: t ++ rest))
  have hi := skipBlanks_gap_cons hh (c := '"') (by simp [IsSpace]) (t ++ rest)
  rw [skipOn]
  grind

end

theorem skipScalar_number {s rest : List Char} {n : Numeral} (h : DenotesNumeral s n)
    (hrest : EndsNumeral rest) : skipScalar (s ++ rest) = .ok rest := by
  have hscan := scanNumeral_append h hrest
  obtain ⟨c, t, rfl, hc⟩ := h.exists_cons
  rw [List.cons_append] at hscan ⊢
  have hskip : skipNumber (c :: (t ++ rest)) = .ok rest := by rw [skipNumber, hscan]
  rw [skipScalar.eq_def]
  -- What a number starts with is no quote and no letter of a literal.
  split
  case h_6 c' tail _ _ _ _ heq =>
    obtain ⟨rfl, -⟩ := List.cons.inj heq
    rw [if_pos hc, hskip]
  case h_1 heq => cases heq
  all_goals
    next heq =>
      obtain ⟨rfl, -⟩ := List.cons.inj heq
      exact absurd hc (by decide)

theorem skipName_append {q cs g : List Char} (hq : DenotesText q cs) (hg : IsGap g)
    (rest : List Char) : skipName ('"' :: (q ++ (g ++ ':' :: rest))) = .ok rest := by
  have hcolon := skipBlanks_gap_cons hg (c := ':') (by simp [IsSpace]) rest
  show (skipText (q ++ (g ++ ':' :: rest)) >>= _) = _
  rw [skipText_append hq]
  simp only [bind, Except.bind, hcolon]

mutual

/-- A value is skipped to its end, and then whatever ends the values around it. By the rules of the
format, with any brackets open. -/
theorem skipValue_append {s : List Char} {v : Datum} (hs : Denotes s v) (enclosing : List Bracket)
    {g rest : List Char} (hg : IsGap g) (hrest : EndsNumeral rest) :
    skipValue enclosing (g ++ (s ++ rest)) = skipOn enclosing rest := by
  match hs with
  | .null => exact skipValue_scalar hg (by simp [IsSpace]) (by decide) (by decide) rfl
  | .boolean b =>
    cases b <;> exact skipValue_scalar hg (by simp [IsSpace]) (by decide) (by decide) rfl
  | .number hn =>
    have hskip := skipScalar_number hn hrest
    obtain ⟨c, t, rfl, hc⟩ := hn.exists_cons
    have hspace : ¬ IsSpace c := by rintro (rfl | rfl | rfl | rfl) <;> simp at hc
    apply skipValue_scalar hg hspace ?_ ?_ hskip
    · rintro rfl
      exact absurd hc (by decide)
    · rintro rfl
      exact absurd hc (by decide)
  | .text ht =>
    exact skipValue_scalar hg (by simp [IsSpace]) (by decide) (by decide) (skipText_append ht rest)
  | .emptyList hh =>
    rw [List.cons_append, List.append_assoc]
    exact skipValue_emptyList hg hh
  | .list hh hvs =>
    rw [List.cons_append, List.append_assoc, skipValue_elements hg hh hvs]
    exact skipElements_append hvs enclosing isGap_nil rest
  | .emptyObject hh =>
    rw [List.cons_append, List.append_assoc]
    exact skipValue_emptyObject hg hh
  | .object hh hms =>
    obtain ⟨value, hname, hvalue⟩ := skipMembers_append hms enclosing rest
    rw [List.cons_append, List.append_assoc, skipValue_members hg hh hms hname, hvalue]

theorem skipElements_append {s : List Char} {vs : List Datum} (hs : DenotesElements s vs)
    (enclosing : List Bracket) {g : List Char} (hg : IsGap g) (rest : List Char) :
    skipValue (.list :: enclosing) (g ++ (s ++ rest)) = skipOn enclosing rest := by
  match hs with
  | .last hv hh =>
    have hends := endsNumeral_gap hh (endsNumeral_cons (c := ']') (by decide) rest)
    have hvalue := skipValue_append hv (.list :: enclosing) hg hends
    rw [skipOn_bracket hh] at hvalue
    simpa using hvalue
  | .cons (h := k) (t := t) hv hh hk hvs =>
    have hends := endsNumeral_gap hh (endsNumeral_cons (c := ',') (by decide) (k ++ (t ++ rest)))
    have hvalue := skipValue_append hv (.list :: enclosing) hg hends
    rw [skipOn_element hh, skipElements_append hvs enclosing hk rest] at hvalue
    simpa using hvalue

theorem skipMembers_append {s : List Char} {ms : List (String × Datum)} (hs : DenotesMembers s ms)
    (enclosing : List Bracket) (rest : List Char) :
    ∃ value, skipName (s ++ rest) = .ok value ∧
      skipValue (.object :: enclosing) value = skipOn enclosing rest := by
  match hs with
  | .last hm hg =>
    have hends := endsNumeral_gap hg (endsNumeral_cons (c := '}') (by decide) rest)
    obtain ⟨value, hname, hvalue⟩ := skipMember_append hm enclosing hends
    rw [skipOn_brace hg] at hvalue
    exact ⟨value, by simpa using hname, hvalue⟩
  | .cons (h := k) (t := t) hm hg hk hms =>
    have hends := endsNumeral_gap hg (endsNumeral_cons (c := ',') (by decide) (k ++ (t ++ rest)))
    obtain ⟨value, hname, hvalue⟩ := skipMember_append hm enclosing hends
    obtain ⟨next, hnext, hothers⟩ := skipMembers_append hms enclosing rest
    rw [skipOn_member hg hk hms hnext, hothers] at hvalue
    exact ⟨value, by simpa using hname, hvalue⟩

theorem skipMember_append {s : List Char} {m : String × Datum} (hs : DenotesMember s m)
    (enclosing : List Bracket) {rest : List Char} (hrest : EndsNumeral rest) :
    ∃ value, skipName (s ++ rest) = .ok value ∧
      skipValue (.object :: enclosing) value = skipOn (.object :: enclosing) rest := by
  match hs with
  | .mk (h := k) (s := t) hq hg hk hv =>
    have hname := skipName_append hq hg (k ++ (t ++ rest))
    exact ⟨_, by simpa using hname, skipValue_append hv (.object :: enclosing) hk hrest⟩

end

end SessionPool.Json
