import SessionPool.Json.Numeral
import SessionPool.Proofs.Json.Spelling

/-!
# Numbers as they are written

A number is written as a sign, digits without leading zeros, a point with more digits and an
exponent, of which only the first digits are needed. Whichever way a numeral is written, it is
scanned as that numeral up to its end,

    scanNumeral (s ++ rest) = ok (n, rest),

unless `rest` goes on with a digit, a point or an exponent. Its value is a natural number exactly
when it has digits alone and fits 64 bits.
-/

namespace SessionPool.Json

open Text

/-! ### The ways to write a number -/

/-- One digit or more. -/
structure IsDigits (s : List Char) : Prop where
  nonempty : s ≠ []
  digits : ∀ c ∈ s, c.isDigit = true

/-- The digits before the point: a zero leads only if it stands alone. -/
structure IsWhole (s : List Char) : Prop extends IsDigits s where
  zero : s.head? = some '0' → s = ['0']

/-- A point and digits, or no point. -/
inductive DenotesFraction : List Char → List Char → Prop
  | none : DenotesFraction [] []
  | point {digits} : IsDigits digits → DenotesFraction ('.' :: digits) digits

/-- A sign of an exponent, or none. -/
inductive DenotesSign : List Char → Bool → Prop
  | none : DenotesSign [] false
  | plus : DenotesSign ['+'] false
  | minus : DenotesSign ['-'] true

/-- A letter, a sign and digits, or no exponent. -/
inductive DenotesExponent : List Char → Option Exponent → Prop
  | none : DenotesExponent [] none
  | some {letter sign negative digits} : letter = 'e' ∨ letter = 'E' → DenotesSign sign negative →
      IsDigits digits → DenotesExponent (letter :: (sign ++ digits)) (some ⟨negative, digits⟩)

/-- A number behind its sign. -/
inductive DenotesUnsigned (negative : Bool) : List Char → Numeral → Prop
  | mk {whole f fraction e exponent} : IsWhole whole → DenotesFraction f fraction →
      DenotesExponent e exponent →
      DenotesUnsigned negative (whole ++ (f ++ e)) ⟨negative, whole, fraction, exponent⟩

/-- A text denotes a numeral. -/
inductive DenotesNumeral : List Char → Numeral → Prop
  | plain {s n} : DenotesUnsigned false s n → DenotesNumeral s n
  | minus {s n} : DenotesUnsigned true s n → DenotesNumeral ('-' :: s) n

theorem IsDigits.exists_cons {s : List Char} (h : IsDigits s) :
    ∃ c t, s = c :: t ∧ c.isDigit = true := by
  obtain ⟨c, t, rfl⟩ := List.exists_cons_of_ne_nil h.nonempty
  exact ⟨c, t, rfl, h.digits c List.mem_cons_self⟩

/-- Behind the sign a number starts with a digit. -/
theorem DenotesUnsigned.exists_cons {negative : Bool} {s : List Char} {n : Numeral}
    (h : DenotesUnsigned negative s n) : ∃ c t, s = c :: t ∧ c.isDigit = true := by
  obtain ⟨hwhole, -, -⟩ := h
  obtain ⟨c, t, rfl, hc⟩ := hwhole.exists_cons
  exact ⟨c, _, rfl, hc⟩

theorem DenotesNumeral.exists_cons {s : List Char} {n : Numeral} (h : DenotesNumeral s n) :
    ∃ c t, s = c :: t ∧ (c = '-' ∨ c.isDigit = true) := by
  cases h with
  | plain h =>
    obtain ⟨c, t, rfl, hc⟩ := h.exists_cons
    exact ⟨c, t, rfl, .inr hc⟩
  | minus h => exact ⟨'-', _, rfl, .inl rfl⟩

/-! ### Where a number ends -/

/-- A text that no digits go on with. -/
def EndsDigits (s : List Char) : Prop := ∀ c, s.head? = some c → c.isDigit = false

/-- A text with which no number goes on. -/
def EndsNumeral (s : List Char) : Prop :=
  ∀ c, s.head? = some c → c.isDigit = false ∧ c ≠ '.' ∧ c ≠ 'e' ∧ c ≠ 'E'

theorem endsNumeral_nil : EndsNumeral [] := by simp [EndsNumeral]

theorem EndsNumeral.endsDigits {s : List Char} (h : EndsNumeral s) : EndsDigits s :=
  fun c hc => (h c hc).1

theorem endsNumeral_cons {c : Char} (hc : c = ',' ∨ c = ':' ∨ c = ']' ∨ c = '}') (s : List Char) :
    EndsNumeral (c :: s) := by
  intro c' hc'
  obtain rfl : c = c' := Option.some.inj hc'
  rcases hc with rfl | rfl | rfl | rfl <;> decide

/-- A comma or a bracket behind a gap ends a number, as the gap does if there is one. -/
theorem endsNumeral_gap {g s : List Char} (hg : IsGap g) (hs : EndsNumeral s) :
    EndsNumeral (g ++ s) := by
  cases g with
  | nil => exact hs
  | cons c g =>
    intro c' hc'
    obtain rfl : c = c' := Option.some.inj hc'
    rcases hg c List.mem_cons_self with rfl | rfl | rfl | rfl <;> decide

theorem DenotesExponent.endsDigits {e rest : List Char} {exponent : Option Exponent}
    (h : DenotesExponent e exponent) (hrest : EndsDigits rest) : EndsDigits (e ++ rest) := by
  cases h with
  | none => exact hrest
  | some hletter =>
    intro c hc
    obtain rfl := Option.some.inj hc
    rcases hletter with rfl | rfl <;> rfl

theorem DenotesFraction.endsDigits {f fraction rest : List Char} (h : DenotesFraction f fraction)
    (hrest : EndsDigits rest) : EndsDigits (f ++ rest) := by
  cases h with
  | none => exact hrest
  | point hdigits =>
    intro c hc
    obtain rfl := Option.some.inj hc
    rfl

/-! ### Scanning -/

theorem takeWhile_digits {s rest : List Char} (hs : IsDigits s) (hrest : EndsDigits rest) :
    (s ++ rest).takeWhile Char.isDigit = s := by
  have hnone : rest.takeWhile Char.isDigit = [] := by
    cases rest with
    | nil => rfl
    | cons c rest => simp [hrest c rfl]
  rw [List.takeWhile_append_of_pos hs.digits, hnone, List.append_nil]

theorem dropWhile_digits {s rest : List Char} (hs : IsDigits s) (hrest : EndsDigits rest) :
    (s ++ rest).dropWhile Char.isDigit = rest := by
  have hall : rest.dropWhile Char.isDigit = rest := by
    cases rest with
    | nil => rfl
    | cons c rest => simp [hrest c rfl]
  rw [List.dropWhile_append_of_pos hs.digits, hall]

theorem scanDigits_append {s rest : List Char} (hs : IsDigits s) (hrest : EndsDigits rest) :
    scanDigits (s ++ rest) = .ok (s, rest) := by
  have htake := takeWhile_digits hs hrest
  have hdrop := dropWhile_digits hs hrest
  obtain ⟨c, t, rfl, hc⟩ := hs.exists_cons
  rw [List.cons_append] at htake hdrop ⊢
  rw [scanDigits, if_pos hc, htake, hdrop]

theorem scanWhole_append {s rest : List Char} (hs : IsWhole s) (hrest : EndsDigits rest) :
    scanWhole (s ++ rest) = .ok (s, rest) := by
  have htake := takeWhile_digits hs.toIsDigits hrest
  have hdrop := dropWhile_digits hs.toIsDigits hrest
  obtain ⟨c, t, rfl, hc⟩ := hs.exists_cons
  rw [List.cons_append] at htake hdrop ⊢
  rw [scanWhole]
  split
  · next hzero =>
    subst hzero
    obtain rfl : t = [] := List.tail_eq_of_cons_eq (hs.zero rfl)
    have hnone : ¬ (([] ++ rest).head?.any Char.isDigit = true) := by
      cases rest with
      | nil => simp
      | cons c rest => simp [hrest c rfl]
    rw [if_neg hnone]
    rfl
  · rw [htake, hdrop]

theorem scanFraction_append {f fraction rest : List Char} (h : DenotesFraction f fraction)
    (hrest : EndsDigits rest) (hpoint : rest.head? ≠ some '.') :
    scanFraction (f ++ rest) = .ok (fraction, rest) := by
  cases h with
  | none =>
    rw [List.nil_append, scanFraction.eq_def]
    split
    · exact absurd rfl hpoint
    · rfl
  | point hdigits => exact scanDigits_append hdigits hrest

theorem scanSignedExponent_append {sign digits rest : List Char} {negative : Bool}
    (hsign : DenotesSign sign negative) (hdigits : IsDigits digits) (hrest : EndsDigits rest) :
    scanSignedExponent (sign ++ (digits ++ rest)) = .ok (some ⟨negative, digits⟩, rest) := by
  have hscan (negative : Bool) :
      scanExponentDigits negative (digits ++ rest) = .ok (some ⟨negative, digits⟩, rest) := by
    rw [scanExponentDigits, scanDigits_append hdigits hrest]
    rfl
  cases hsign with
  | none =>
    -- Without a sign the first digit must not be taken for one.
    obtain ⟨c, t, rfl, hc⟩ := hdigits.exists_cons
    rw [List.nil_append, List.cons_append] at *
    rw [scanSignedExponent.eq_def]
    split
    · next h => cases h; cases hc
    · next h => cases h; cases hc
    · exact hscan false
  | plus => exact hscan false
  | minus => exact hscan true

theorem scanExponent_append {e rest : List Char} {exponent : Option Exponent}
    (h : DenotesExponent e exponent) (hrest : EndsNumeral rest) :
    scanExponent (e ++ rest) = .ok (exponent, rest) := by
  cases h with
  | none =>
    rw [List.nil_append, scanExponent.eq_def]
    split
    · exact absurd rfl (hrest 'e' rfl).2.2.1
    · exact absurd rfl (hrest 'E' rfl).2.2.2
    · rfl
  | some hletter hsign hdigits =>
    have hscan := scanSignedExponent_append hsign hdigits hrest.endsDigits
    rw [List.cons_append, List.append_assoc]
    rcases hletter with rfl | rfl <;> exact hscan

theorem scanUnsigned_append {negative : Bool} {s rest : List Char} {n : Numeral}
    (h : DenotesUnsigned negative s n) (hrest : EndsNumeral rest) :
    scanUnsigned negative (s ++ rest) = .ok (n, rest) := by
  obtain ⟨hwhole, hfraction, hexponent⟩ := h
  rename_i e _
  have hends := hexponent.endsDigits hrest.endsDigits
  have hpoint : (e ++ rest).head? ≠ some '.' := by
    cases hexponent with
    | none => exact fun h => (hrest '.' h).2.1 rfl
    | some hletter => rcases hletter with rfl | rfl <;> simp
  rw [List.append_assoc, List.append_assoc, scanUnsigned,
    scanWhole_append hwhole (hfraction.endsDigits hends)]
  simp only [bind, Except.bind, scanFraction_append hfraction hends hpoint,
    scanExponent_append hexponent hrest]
  rfl

/-- However a numeral is written, it is scanned to its end. -/
theorem scanNumeral_append {s rest : List Char} {n : Numeral} (h : DenotesNumeral s n)
    (hrest : EndsNumeral rest) : scanNumeral (s ++ rest) = .ok (n, rest) := by
  cases h with
  | plain h =>
    have hscan := scanUnsigned_append h hrest
    obtain ⟨c, t, rfl, hc⟩ := h.exists_cons
    rw [List.cons_append] at hscan ⊢
    rw [scanNumeral.eq_def]
    split
    · next h => cases h; cases hc
    · exact hscan
  | minus h => exact scanUnsigned_append h hrest

/-! ### Values -/

theorem le_ofDigitChars (s : List Char) (n : Nat) : n ≤ Nat.ofDigitChars 10 s n := by
  induction s generalizing n with
  | nil => exact Nat.le_refl n
  | cons c s ih =>
    have := ih (10 * n + (c.toNat - '0'.toNat))
    rw [Nat.ofDigitChars_cons]
    omega

/-- Digits whose value fits 64 bits are all taken. -/
theorem appendDigits_eq {s : List Char} {n : Nat}
    (h : Nat.ofDigitChars 10 s n < UInt64.size) :
    appendDigits n s = (Nat.ofDigitChars 10 s n, []) := by
  induction s generalizing n with
  | nil => rfl
  | cons c s ih =>
    rw [Nat.ofDigitChars_cons] at h ⊢
    have hfits := Nat.lt_of_le_of_lt (le_ofDigitChars s _) h
    rw [appendDigits, if_pos hfits]
    exact ih h

/-- Digits that are all taken fit 64 bits. -/
theorem ofDigitChars_of_appendDigits {s : List Char} {n m : Nat} (hn : n < UInt64.size)
    (h : appendDigits n s = (m, [])) : Nat.ofDigitChars 10 s n = m ∧ m < UInt64.size := by
  induction s generalizing n with
  | nil =>
    cases h
    exact ⟨rfl, hn⟩
  | cons c s ih =>
    rw [appendDigits] at h
    split at h
    · next hfits =>
      rw [Nat.ofDigitChars_cons]
      exact ih hfits h
    · cases h

theorem doubleNumber_ne_natural (negative : Bool) (significand : Nat) (power : Int) (k : Nat) :
    doubleNumber negative significand power ≠ .ok (.natural k) := by
  intro h
  unfold doubleNumber at h
  split at h <;> cases h

theorem exponentNumber_ne_natural (negative : Bool) (significand : Nat) (power : Int)
    (exponent : Exponent) (k : Nat) :
    exponentNumber negative significand power exponent ≠ .ok (.natural k) := by
  intro h
  unfold exponentNumber at h
  split at h
  · exact doubleNumber_ne_natural _ _ _ k h
  · split at h <;> cases h

theorem wholeNumber_eq_natural_iff {negative : Bool} {n k : Nat} :
    wholeNumber negative n = .ok (.natural k) ↔ negative = false ∧ n = k := by
  cases negative with
  | false => simp [wholeNumber]
  | true =>
    have hne : wholeNumber true n ≠ .ok (.natural k) := by
      intro h
      rw [wholeNumber, if_neg (by decide)] at h
      split at h
      · cases h
      · exact doubleNumber_ne_natural _ _ _ k h
    simp [hne]

/-- Natural numbers are written in digits alone. -/
theorem Numeral.value_eq_natural_iff (n : Numeral) (k : Nat) :
    n.value = .ok (.natural k) ↔
      n = ⟨false, n.whole, [], none⟩ ∧ Nat.ofDigitChars 10 n.whole 0 = k ∧ k < UInt64.size := by
  obtain ⟨negative, whole, fraction, exponent⟩ := n
  constructor
  · intro h
    rw [Numeral.value] at h
    generalize hleading : appendDigits 0 whole = p at h
    obtain ⟨leading, left⟩ := p
    dsimp only at h
    split at h
    · next hplain =>
      obtain ⟨rfl, rfl, rfl⟩ := hplain
      obtain ⟨rfl, rfl⟩ := wholeNumber_eq_natural_iff.mp h
      exact ⟨rfl, ofDigitChars_of_appendDigits (by decide) hleading⟩
    · -- Whatever is not written in digits alone is a double or out of range.
      cases exponent with
      | none => exact absurd h (doubleNumber_ne_natural _ _ _ k)
      | some exponent => exact absurd h (exponentNumber_ne_natural _ _ _ exponent k)
  · rintro ⟨hn, rfl, hfits⟩
    injection hn with hnegative hwhole hfraction hexponent
    subst hnegative hfraction hexponent
    simp [Numeral.value, appendDigits_eq hfits, wholeNumber]

end SessionPool.Json
