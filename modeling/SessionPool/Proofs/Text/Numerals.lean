import SessionPool.Proofs.Json.Written
import SessionPool.Text.Numeral

/-!
# Which texts are whole numbers

A text spells a number with one decimal digit or more and an optional plus sign in front of them. A
text that does not, or that spells a number above the bound, is refused for what is wrong at the
first position at which anything is:

    readNumeral max s = ok n         ↔  Spells s n and n ≤ max
    readNumeral max s = error fault  ↔  Refuses max s fault
-/

namespace SessionPool.Text

open Json (IsDigits)

/-! ### Digits -/

/-- What is wrong at a position of digits that follow the value `n`: there is no digit, or else the
value up to here is above the bound. -/
inductive FaultAt (max n : Nat) (s : List Char) (i : Nat) : NumeralFault → Prop
  | stray {c : Char} (there : s[i]? = some c) (stray : c.isDigit = false) :
      FaultAt max n s i .invalidDigit
  | exceeds {c : Char} (there : s[i]? = some c) (digit : c.isDigit = true)
      (exceeds : max < Nat.ofDigitChars 10 (s.take (i + 1)) n) : FaultAt max n s i .tooLarge

/-- What is wrong at the first position at which something is. -/
def FirstFault (max n : Nat) (s : List Char) (fault : NumeralFault) : Prop :=
  ∃ i, FaultAt max n s i fault ∧ ∀ j < i, ∀ other, ¬ FaultAt max n s j other

variable {max n m : Nat} {s : List Char} {c : Char} {fault : NumeralFault}

theorem FaultAt.unique {i : Nat} {other : NumeralFault} (h : FaultAt max n s i fault)
    (h' : FaultAt max n s i other) : fault = other := by
  cases h with
  | stray there stray =>
    cases h' with
    | stray => rfl
    | exceeds there' digit =>
      cases there.symm.trans there'
      cases stray.symm.trans digit
  | exceeds there digit =>
    cases h' with
    | stray there' stray =>
      cases there.symm.trans there'
      cases stray.symm.trans digit
    | exceeds => rfl

/-- Behind the first digit everything is as if the value had started with it. -/
theorem faultAt_succ_iff {i : Nat} :
    FaultAt max n (c :: s) (i + 1) fault ↔
      FaultAt max (10 * n + (c.toNat - '0'.toNat)) s i fault := by
  constructor
  · intro h
    cases h with
    | stray there stray => exact .stray there stray
    | exceeds there digit exceeds => exact .exceeds there digit exceeds
  · intro h
    cases h with
    | stray there stray => exact .stray there stray
    | exceeds there digit exceeds => exact .exceeds there digit exceeds

theorem not_firstFault_nil : ¬ FirstFault max n [] fault := by
  rintro ⟨i, h, -⟩
  cases h with
  | stray there => cases there
  | exceeds there => cases there

theorem firstFault_of_head {head : NumeralFault} (h : FaultAt max n s 0 head) :
    FirstFault max n s fault ↔ head = fault := by
  constructor
  · rintro ⟨i, hi, hfirst⟩
    obtain rfl : i = 0 := Nat.eq_zero_of_not_pos fun hpos => hfirst 0 hpos head h
    exact h.unique hi
  · rintro rfl
    exact ⟨0, h, fun j hj => absurd hj (Nat.not_lt_zero j)⟩

theorem firstFault_cons (h : ∀ head, ¬ FaultAt max n (c :: s) 0 head) :
    FirstFault max n (c :: s) fault ↔
      FirstFault max (10 * n + (c.toNat - '0'.toNat)) s fault := by
  constructor
  · rintro ⟨i, hi, hfirst⟩
    cases i with
    | zero => exact absurd hi (h fault)
    | succ i =>
      refine ⟨i, faultAt_succ_iff.mp hi, fun j hj other hother => ?_⟩
      exact hfirst (j + 1) (Nat.succ_lt_succ hj) other (faultAt_succ_iff.mpr hother)
  · rintro ⟨i, hi, hfirst⟩
    refine ⟨i + 1, faultAt_succ_iff.mpr hi, fun j hj other hother => ?_⟩
    cases j with
    | zero => exact h other hother
    | succ j => exact hfirst j (Nat.lt_of_succ_lt_succ hj) other (faultAt_succ_iff.mp hother)

theorem readDigits_of_stray (hc : c.isDigit = false) :
    readDigits max n (c :: s) = .error .invalidDigit := by
  simp [readDigits, digit?, hc]

theorem readDigits_of_digit (hc : c.isDigit = true) :
    readDigits max n (c :: s) =
      if 10 * n + (c.toNat - '0'.toNat) ≤ max then
        readDigits max (10 * n + (c.toNat - '0'.toNat)) s
      else .error .tooLarge := by
  simp [readDigits, digit?, hc]

theorem readDigits_eq_ok_iff (hn : n ≤ max) :
    readDigits max n s = .ok m ↔
      (∀ c ∈ s, c.isDigit = true) ∧ Nat.ofDigitChars 10 s n = m ∧ m ≤ max := by
  induction s generalizing n with
  | nil =>
    rw [readDigits, Nat.ofDigitChars_nil, Except.ok.injEq]
    exact ⟨fun h => ⟨by simp, h, h ▸ hn⟩, fun h => h.2.1⟩
  | cons c s ih =>
    rw [Nat.ofDigitChars_cons, List.forall_mem_cons]
    cases hc : c.isDigit with
    | false => simp [readDigits_of_stray hc]
    | true =>
      rw [readDigits_of_digit hc]
      split
      · next hfits =>
        rw [ih hfits]
        simp only [true_and]
      · next hexceeds =>
        refine iff_of_false nofun ?_
        rintro ⟨-, rfl, hle⟩
        exact hexceeds (Nat.le_trans (Json.le_ofDigitChars s _) hle)

theorem readDigits_eq_error_iff :
    readDigits max n s = .error fault ↔ FirstFault max n s fault := by
  induction s generalizing n with
  | nil => exact iff_of_false nofun not_firstFault_nil
  | cons c s ih =>
    cases hc : c.isDigit with
    | false =>
      have hhead : FaultAt max n (c :: s) 0 .invalidDigit := .stray rfl hc
      rw [readDigits_of_stray hc, firstFault_of_head hhead, Except.error.injEq]
    | true =>
      rw [readDigits_of_digit hc]
      split
      · next hfits =>
        rw [ih, firstFault_cons]
        intro head hhead
        cases hhead with
        | stray there stray =>
          obtain rfl := Option.some.inj there
          cases hc.symm.trans stray
        | exceeds there digit exceeds => exact Nat.not_lt.mpr hfits exceeds
      · next hexceeds =>
        have hhead : FaultAt max n (c :: s) 0 .tooLarge :=
          .exceeds rfl hc (Nat.lt_of_not_le hexceeds)
        rw [firstFault_of_head hhead, Except.error.injEq]

/-! ### The sign -/

/-- A text without the plus sign in front. -/
def unsigned : List Char → List Char
  | '+' :: s => s
  | s => s

/-- A text spells a number. Any number of zeros may lead. -/
inductive Spells : List Char → Nat → Prop
  | digits {s : List Char} (h : IsDigits s) : Spells s (Nat.ofDigitChars 10 s 0)
  | plus {s : List Char} (h : IsDigits s) : Spells ('+' :: s) (Nat.ofDigitChars 10 s 0)

/-- A text spells no number up to a bound, and why. -/
inductive Refuses (max : Nat) : List Char → NumeralFault → Prop
  | empty : Refuses max [] .empty
  | loneSign : Refuses max ['+'] .invalidDigit
  | first {s : List Char} {fault : NumeralFault} (h : FirstFault max 0 (unsigned s) fault) :
      Refuses max s fault

theorem unsigned_cases (s : List Char) :
    (∃ t, s = '+' :: t ∧ unsigned s = t) ∨ (∀ t, s ≠ '+' :: t) ∧ unsigned s = s := by
  rw [unsigned.eq_def]
  split
  · exact .inl ⟨_, rfl, rfl⟩
  · next hplus => exact .inr ⟨hplus, rfl⟩

/-- No digit is a sign. -/
theorem unsigned_of_isDigits (h : IsDigits s) : unsigned s = s := by
  rcases unsigned_cases s with ⟨t, rfl, -⟩ | ⟨-, heq⟩
  · cases h.digits '+' List.mem_cons_self
  · exact heq

theorem spells_iff :
    Spells s n ↔ IsDigits (unsigned s) ∧ Nat.ofDigitChars 10 (unsigned s) 0 = n := by
  constructor
  · intro h
    cases h with
    | digits h =>
      rw [unsigned_of_isDigits h]
      exact ⟨h, rfl⟩
    | plus h => exact ⟨h, rfl⟩
  · rintro ⟨h, rfl⟩
    rcases unsigned_cases s with ⟨t, rfl, heq⟩ | ⟨-, heq⟩
    · rw [heq] at h ⊢
      exact .plus h
    · rw [heq] at h ⊢
      exact .digits h

/-- Behind the sign there is nothing. -/
theorem unsigned_eq_nil_iff : unsigned s = [] ↔ s = [] ∨ s = ['+'] := by
  rcases unsigned_cases s with ⟨t, rfl, heq⟩ | ⟨hplus, heq⟩
  · simp [heq]
  · simp [heq, hplus []]

theorem readNumeral_of_unsigned (h : unsigned s ≠ []) :
    readNumeral max s = readDigits max 0 (unsigned s) := by
  rcases unsigned_cases s with ⟨t, rfl, heq⟩ | ⟨hplus, heq⟩
  · rw [heq] at h ⊢
    rw [readNumeral]
    exact h
  · rw [heq] at h ⊢
    rw [readNumeral]
    · exact h
    · exact hplus []
    · exact hplus

/-- **A number is read from the texts that spell one up to the bound.** -/
theorem readNumeral_eq_ok_iff : readNumeral max s = .ok n ↔ Spells s n ∧ n ≤ max := by
  rw [spells_iff]
  by_cases hnil : unsigned s = []
  · have hnot : ¬ IsDigits (unsigned s) := fun h => h.nonempty hnil
    rcases unsigned_eq_nil_iff.mp hnil with rfl | rfl
    · exact iff_of_false nofun fun h => hnot h.1.1
    · exact iff_of_false nofun fun h => hnot h.1.1
  · rw [readNumeral_of_unsigned hnil, readDigits_eq_ok_iff (Nat.zero_le max)]
    constructor
    · rintro ⟨hdigits, hvalue, hle⟩
      exact ⟨⟨⟨hnil, hdigits⟩, hvalue⟩, hle⟩
    · rintro ⟨⟨hdigits, hvalue⟩, hle⟩
      exact ⟨hdigits.digits, hvalue, hle⟩

/-- **Every other text is refused for the first thing that is wrong with it.** -/
theorem readNumeral_eq_error_iff : readNumeral max s = .error fault ↔ Refuses max s fault := by
  by_cases hnil : unsigned s = []
  · have hnot (fault : NumeralFault) : ¬ FirstFault max 0 (unsigned s) fault :=
      hnil ▸ not_firstFault_nil
    rcases unsigned_eq_nil_iff.mp hnil with rfl | rfl
    · constructor
      · rintro ⟨⟩
        exact .empty
      · intro h
        cases h with
        | empty => rfl
        | first h => exact absurd h (hnot fault)
    · constructor
      · rintro ⟨⟩
        exact .loneSign
      · intro h
        cases h with
        | loneSign => rfl
        | first h => exact absurd h (hnot fault)
  · rw [readNumeral_of_unsigned hnil, readDigits_eq_error_iff]
    constructor
    · exact .first
    · intro h
      cases h with
      | empty => exact absurd rfl hnil
      | loneSign => exact absurd rfl hnil
      | first h => exact h

/-! ### Numbers that are written -/

theorem isDigits_repr (n : Nat) : IsDigits n.repr.toList := by
  rw [Nat.toList_repr]
  exact (Json.isWhole_writeNatural n).toIsDigits

theorem spells_repr (n : Nat) : Spells n.repr.toList n := by
  rw [spells_iff, unsigned_of_isDigits (isDigits_repr n)]
  refine ⟨isDigits_repr n, ?_⟩
  rw [Nat.toList_repr]
  exact Nat.ofDigitChars_toDigits (by decide) (by decide)

/-! ### Numbers of 16 bits -/

theorem readUInt16_eq_ok_iff {s : String} {port : UInt16} :
    readUInt16 s = .ok port ↔ Spells s.toList port.toNat := by
  have hle : port.toNat ≤ UInt16.size - 1 := Nat.le_sub_one_of_lt port.toNat_lt_size
  rw [readUInt16]
  constructor
  · intro h
    cases hread : readNumeral (UInt16.size - 1) s.toList with
    | error fault =>
      rw [hread] at h
      cases h
    | ok n =>
      obtain ⟨hspells, hn⟩ := readNumeral_eq_ok_iff.mp hread
      rw [hread] at h
      cases h
      rwa [UInt16.toNat_ofNat_of_lt' (Nat.lt_of_le_of_lt hn (by decide))]
  · intro h
    rw [readNumeral_eq_ok_iff.mpr ⟨h, hle⟩]
    exact congrArg Except.ok port.ofNat_toNat

theorem readUInt16_eq_error_iff {s : String} :
    readUInt16 s = .error fault ↔ Refuses 65535 s.toList fault := by
  rw [readUInt16, ← readNumeral_eq_error_iff]
  show (readNumeral 65535 s.toList).map UInt16.ofNat = .error fault ↔ _
  cases readNumeral 65535 s.toList <;> simp [Except.map]

end SessionPool.Text
