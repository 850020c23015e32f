/-!
# Numbers of the double format

A finite non-negative double is `m · 2^q` with `m < 2^53` and `-1074 ≤ q ≤ 971`, where `m` is at
least `2^52` unless `q` is the least exponent. Every operation here is exact on natural numbers
and rounds once, to the nearest double and in a tie to the even one. A result too large for the
format is `none`.
-/

namespace SessionPool.Decimal

/-- The power of two with a given exponent. -/
def twoTo (n : Nat) : Nat := Nat.pow 2 n

/-- The power of ten with a given exponent. -/
def tenTo (n : Nat) : Nat := Nat.pow 10 n

/-- A quotient rounded to the nearest whole number, a tie to the even one. -/
def roundDiv (num den : Nat) : Nat :=
  let quotient := num / den
  let rest := num % den
  if 2 * rest < den || (2 * rest == den && quotient % 2 == 0) then quotient else quotient + 1

/-- The number `significand · 2 ^ exponent`. -/
structure Double where
  significand : Nat
  exponent : Int
  deriving DecidableEq, Repr

namespace Double

/-- The least exponent of the format. -/
def minExponent : Int := -1074

/-- The greatest exponent of the format. -/
def maxExponent : Int := 971

def zero : Double := ⟨0, minExponent⟩

def isZero (d : Double) : Bool := d.significand == 0

/-- `num / den` in units of `2 ^ exponent`, as a quotient of whole numbers. -/
def inUnits (num den : Nat) (exponent : Int) : Nat × Nat :=
  (num * twoTo (-exponent).toNat, den * twoTo exponent.toNat)

/-- The exponent at which `num / den` has a significand of 53 bits, or the least one. -/
def exponentOf (num den : Nat) : Int :=
  let least : Int := (Nat.log2 num : Int) - Nat.log2 den - 53
  let units := inUnits num den least
  max minExponent (if units.1 / units.2 < twoTo 53 then least else least + 1)

/-- The double nearest to `num / den`. -/
def ofRatio (num den : Nat) : Option Double :=
  if num == 0 then some zero
  else
    let exponent := exponentOf num den
    let units := inUnits num den exponent
    let significand := roundDiv units.1 units.2
    let rounded : Double :=
      if significand == twoTo 53 then ⟨twoTo 52, exponent + 1⟩ else ⟨significand, exponent⟩
    if rounded.exponent ≤ maxExponent then some rounded else none

/-- The double nearest to a whole number. -/
def ofNat (n : Nat) : Option Double := ofRatio n 1

/-- The product of two doubles. -/
def mul (a b : Double) : Option Double :=
  let exponent := a.exponent + b.exponent
  ofRatio (a.significand * b.significand * twoTo exponent.toNat) (twoTo (-exponent).toNat)

/-- The quotient of two doubles, the second not zero. -/
def div (a b : Double) : Option Double :=
  let exponent := a.exponent - b.exponent
  ofRatio (a.significand * twoTo exponent.toNat) (b.significand * twoTo (-exponent).toNat)

/-- The double nearest to `10 ^ n`. -/
def powerOfTen (n : Nat) : Option Double := ofNat (tenTo n)

/-- The greatest power of ten of the format. -/
def maxPower : Nat := 308

/-- A whole number times a power of ten, computed in doubles: the number is rounded, then
multiplied by or divided by a rounded power of ten, at most `10 ^ 308` at a time. -/
def scale (d : Double) (power : Int) : Option Double :=
  if power.natAbs ≤ maxPower then
    (powerOfTen power.natAbs).bind (if 0 ≤ power then d.mul else d.div)
  else if d.isZero then some d
  else if _h : 0 ≤ power then none
  else ((powerOfTen maxPower).bind d.div).bind fun smaller => smaller.scale (power + maxPower)
termination_by power.natAbs
decreasing_by
  simp only [maxPower] at *
  omega

end Double

end SessionPool.Decimal
