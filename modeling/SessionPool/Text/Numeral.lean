/-!
# Whole numbers in text

The notation is an optional single `+` and then decimal digits, any number of leading zeros
included. Digits are taken from the left. The first problem met decides: at each position first
whether the character is a digit at all, then whether the value so far still fits below the
bound. Where a sign is allowed a single `-` may stand for the `+`.
-/

namespace SessionPool.Text

/-- Why a text is no number within a bound. -/
inductive NumeralFault where
  | empty
  | invalidDigit
  | tooLarge
  deriving DecidableEq, Repr

/-- The wording of a fault. -/
def NumeralFault.message : NumeralFault → String
  | .empty => "cannot parse integer from empty string"
  | .invalidDigit => "invalid digit found in string"
  | .tooLarge => "number too large to fit in target type"

/-- The value of a decimal digit. -/
def digit? (c : Char) : Option Nat :=
  if c.isDigit then some (c.toNat - '0'.toNat) else none

/-- Reads digits onto the value `n`, refusing values above `max`. -/
def readDigits (max : Nat) : Nat → List Char → Except NumeralFault Nat
  | n, [] => .ok n
  | n, c :: s =>
    match digit? c with
    | none => .error .invalidDigit
    | some d => if 10 * n + d ≤ max then readDigits max (10 * n + d) s else .error .tooLarge

/-- The number at most `max` that a text stands for. A lone `+` has no digit. -/
def readNumeral (max : Nat) : List Char → Except NumeralFault Nat
  | [] => .error .empty
  | ['+'] => .error .invalidDigit
  | '+' :: s => readDigits max 0 s
  | s => readDigits max 0 s

/-- The number from 0 to `max` that a text with either sign stands for. After a minus sign only
zero is in that range. -/
def readSigned (max : Nat) : List Char → Except NumeralFault Nat
  | '-' :: c :: s => readDigits 0 0 (c :: s)
  | s => readNumeral max s

/-- A 16-bit number in text. -/
def readUInt16 (s : String) : Except NumeralFault UInt16 :=
  (readNumeral (UInt16.size - 1) s.toList).map UInt16.ofNat

/-- A 64-bit number in text. -/
def readUInt64 (s : String) : Except NumeralFault UInt64 :=
  (readNumeral (UInt64.size - 1) s.toList).map UInt64.ofNat

end SessionPool.Text
