import SessionPool.Json.Fault

/-!
# JSON numbers

A number is first taken apart as it is written (`scanNumeral`) and then given its value
(`Numeral.value`). A number without point and exponent is an integer as long as it fits 64 bits;
every other number is a double. The significand of a double keeps as many leading digits as fit
64 bits, the others only move its power of ten.
-/

namespace SessionPool.Json

open Text Decimal

/-- An exponent as it is written. -/
structure Exponent where
  negative : Bool
  digits : List Char
  deriving DecidableEq, Repr

/-- A number as it is written. Without a point the fraction has no digits. -/
structure Numeral where
  negative : Bool
  whole : List Char
  fraction : List Char
  exponent : Option Exponent
  deriving DecidableEq, Repr

/-! ### Taking a number apart -/

/-- The digits before the point: a zero alone, or digits that do not start with one. -/
def scanWhole (s : List Char) : Except Fault (List Char × List Char) :=
  match s with
  | [] => .error (.before .endInValue [])
  | c :: rest =>
    if c = '0' then
      if rest.head?.any Char.isDigit then .error (.onFirst .invalidNumber rest)
      else .ok (['0'], rest)
    else if c.isDigit then .ok (s.takeWhile Char.isDigit, s.dropWhile Char.isDigit)
    else .error (.onFirst .invalidNumber s)

/-- At least one digit. -/
def scanDigits (s : List Char) : Except Fault (List Char × List Char) :=
  match s with
  | [] => .error (.before .endInValue [])
  | c :: _ =>
    if c.isDigit then .ok (s.takeWhile Char.isDigit, s.dropWhile Char.isDigit)
    else .error (.onFirst .invalidNumber s)

/-- The point and the digits behind it, if there is a point. -/
def scanFraction : List Char → Except Fault (List Char × List Char)
  | '.' :: s => scanDigits s
  | s => .ok ([], s)

/-- The digits of an exponent behind its sign. -/
def scanExponentDigits (negative : Bool) (s : List Char) :
    Except Fault (Option Exponent × List Char) :=
  (scanDigits s).map fun (digits, rest) => (some ⟨negative, digits⟩, rest)

/-- An exponent behind its letter. -/
def scanSignedExponent : List Char → Except Fault (Option Exponent × List Char)
  | '+' :: s => scanExponentDigits false s
  | '-' :: s => scanExponentDigits true s
  | s => scanExponentDigits false s

/-- The exponent, if there is one. -/
def scanExponent : List Char → Except Fault (Option Exponent × List Char)
  | 'e' :: s => scanSignedExponent s
  | 'E' :: s => scanSignedExponent s
  | s => .ok (none, s)

/-- A number behind its sign. -/
def scanUnsigned (negative : Bool) (s : List Char) : Except Fault (Numeral × List Char) := do
  let (whole, s) ← scanWhole s
  let (fraction, s) ← scanFraction s
  let (exponent, s) ← scanExponent s
  return (⟨negative, whole, fraction, exponent⟩, s)

/-- The number at the front of a text. -/
def scanNumeral : List Char → Except Fault (Numeral × List Char)
  | '-' :: s => scanUnsigned true s
  | s => scanUnsigned false s

theorem length_dropWhile_le {α : Type} (p : α → Bool) (s : List α) :
    (s.dropWhile p).length ≤ s.length :=
  (List.dropWhile_suffix p).length_le

theorem scanWhole_shorter {s rest digits : List Char} (h : scanWhole s = .ok (digits, rest)) :
    rest.length < s.length := by
  unfold scanWhole at h
  split at h
  · cases h
  · rename_i c tail
    split at h
    · split at h
      · cases h
      · cases h
        simp
    · split at h
      · rename_i hc
        cases h
        have := length_dropWhile_le Char.isDigit tail
        rw [List.dropWhile_cons, if_pos hc, List.length_cons]
        omega
      · cases h

theorem scanDigits_shorter {s rest digits : List Char} (h : scanDigits s = .ok (digits, rest)) :
    rest.length < s.length := by
  unfold scanDigits at h
  split at h
  · cases h
  · rename_i c tail
    split at h
    · rename_i hc
      cases h
      have := length_dropWhile_le Char.isDigit tail
      rw [List.dropWhile_cons, if_pos hc, List.length_cons]
      omega
    · cases h

theorem scanFraction_le {s rest digits : List Char} (h : scanFraction s = .ok (digits, rest)) :
    rest.length ≤ s.length := by
  unfold scanFraction at h
  split at h
  · have := scanDigits_shorter h
    simp only [List.length_cons]
    omega
  · cases h
    exact Nat.le_refl _

theorem scanExponentDigits_le {negative : Bool} {s rest : List Char} {e : Option Exponent}
    (h : scanExponentDigits negative s = .ok (e, rest)) : rest.length ≤ s.length := by
  obtain ⟨p, hs, h⟩ := exists_of_map_eq_ok h
  cases h
  exact Nat.le_of_lt (scanDigits_shorter hs)

theorem scanSignedExponent_le {s rest : List Char} {e : Option Exponent}
    (h : scanSignedExponent s = .ok (e, rest)) : rest.length ≤ s.length := by
  unfold scanSignedExponent at h
  split at h <;> have := scanExponentDigits_le h <;> grind

theorem scanExponent_le {s rest : List Char} {e : Option Exponent}
    (h : scanExponent s = .ok (e, rest)) : rest.length ≤ s.length := by
  unfold scanExponent at h
  split at h
  · have := scanSignedExponent_le h
    grind
  · have := scanSignedExponent_le h
    grind
  · cases h
    exact Nat.le_refl _

theorem scanUnsigned_shorter {negative : Bool} {s rest : List Char} {n : Numeral}
    (h : scanUnsigned negative s = .ok (n, rest)) : rest.length < s.length := by
  obtain ⟨whole, hw, h⟩ := exists_of_bind_eq_ok h
  obtain ⟨fraction, hf, h⟩ := exists_of_bind_eq_ok h
  obtain ⟨exponent, he, h⟩ := exists_of_bind_eq_ok h
  have := scanWhole_shorter hw
  have := scanFraction_le hf
  have := scanExponent_le he
  cases h
  omega

theorem scanNumeral_shorter {s rest : List Char} {n : Numeral}
    (h : scanNumeral s = .ok (n, rest)) : rest.length < s.length := by
  unfold scanNumeral at h
  split at h
  · have := scanUnsigned_shorter h
    grind
  · exact scanUnsigned_shorter h

/-! ### Values -/

/-- What a number stands for. The second constructor holds the amount below zero. -/
inductive Number where
  | natural (value : Nat)
  | negative (amount : Nat)
  | floating (negative : Bool) (value : Double)
  deriving DecidableEq, Repr

/-- Appends digits to a number while it fits 64 bits; the digits that do not fit are left. -/
def appendDigits (n : Nat) : List Char → Nat × List Char
  | [] => (n, [])
  | c :: s =>
    let appended := 10 * n + (c.toNat - '0'.toNat)
    if appended < UInt64.size then appendDigits appended s else (n, c :: s)

/-- The value of the digits of an exponent, or, if it passes 31 bits, the digits behind the one
with which it does. -/
def exponentValue (n : Nat) : List Char → Except (List Char) Nat
  | [] => .ok n
  | c :: s =>
    let appended := 10 * n + (c.toNat - '0'.toNat)
    if appended < twoTo 31 then exponentValue appended s else .error s

/-- `significand · 10 ^ power` as a double, refused with nothing left to read when it is too
large. -/
def doubleNumber (negative : Bool) (significand : Nat) (power : Int) :
    Except (List Char) Number :=
  match (Double.ofNat significand).bind (·.scale power) with
  | some d => .ok (.floating negative d)
  | none => .error []

/-- The double of a number whose exponent may be too large to matter. -/
def exponentNumber (negative : Bool) (significand : Nat) (power : Int) (exponent : Exponent) :
    Except (List Char) Number :=
  match exponentValue 0 exponent.digits with
  | .ok e => doubleNumber negative significand (if exponent.negative then power - e else power + e)
  | .error unread =>
    if significand = 0 ∨ exponent.negative then .ok (.floating negative .zero) else .error unread

/-- The value of a whole number that fits 64 bits. Below zero only 63 bits are integers, and so is
no zero. -/
def wholeNumber (negative : Bool) (n : Nat) : Except (List Char) Number :=
  if !negative then .ok (.natural n)
  else if 0 < n ∧ n ≤ twoTo 63 then .ok (.negative n)
  else doubleNumber negative n 0

/-- The value of a number, or the digits left behind the one that puts it out of range. -/
def Numeral.value (n : Numeral) : Except (List Char) Number :=
  let (leading, left) := appendDigits 0 n.whole
  if left = [] ∧ n.fraction = [] ∧ n.exponent = none then wholeNumber n.negative leading
  else
    let (significand, unused) := appendDigits leading n.fraction
    let power : Int := left.length - (n.fraction.length - unused.length : Nat)
    match n.exponent with
    | none => doubleNumber n.negative significand power
    | some exponent => exponentNumber n.negative significand power exponent

/-- The value of the number at the front of a text. -/
def readNumber (s : List Char) : Except Fault (Number × List Char) := do
  let (numeral, rest) ← scanNumeral s
  match numeral.value with
  | .ok number => return (number, rest)
  | .error unread => throw (.before .numberOutOfRange (unread ++ rest))

theorem readNumber_shorter {s rest : List Char} {n : Number} (h : readNumber s = .ok (n, rest)) :
    rest.length < s.length := by
  obtain ⟨⟨numeral, left⟩, hs, h⟩ := exists_of_bind_eq_ok h
  have := scanNumeral_shorter hs
  dsimp only at h
  split at h
  · cases h
    exact this
  · cases h

/-- What is left behind a number that nobody wants to know. Its value does not matter, and
whatever is wrong with its form makes it an invalid number. -/
def skipNumber (s : List Char) : Except Fault (List Char) :=
  match scanNumeral s with
  | .ok (_, rest) => .ok rest
  | .error fault => .error { fault with cause := .invalidNumber }

theorem skipNumber_shorter {s rest : List Char} (h : skipNumber s = .ok rest) :
    rest.length < s.length := by
  unfold skipNumber at h
  split at h
  · rename_i hs
    cases h
    exact scanNumeral_shorter hs
  · cases h

end SessionPool.Json
