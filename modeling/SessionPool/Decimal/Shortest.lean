import SessionPool.Decimal.Double

/-!
# The shortest decimal that reads back

A double stands for an interval of real numbers, those that round to it. Of the decimals in this
interval the shortest is the one on the coarsest grid of powers of ten; two neighbours on one grid
may both lie in the interval, and then the nearer one is taken, in a tie the even one.
-/

namespace SessionPool.Decimal

/-- The number `digits · 10 ^ exponent`. -/
structure Scientific where
  digits : Nat
  exponent : Int
  deriving DecidableEq, Repr

/-- The interval of a double in quarters of its unit: the lower end, the double itself and the
upper end. Below a power of two the doubles lie twice as close. -/
def Double.interval (d : Double) : Nat × Nat × Nat :=
  let m := 4 * d.significand
  let below := if d.significand == twoTo 52 && Double.minExponent < d.exponent then 1 else 2
  (m - below, m, m + 2)

/-- The decimal for a double on the grid `10 ^ power`, if one of the double's two neighbours there
lies in its interval. The ends belong to the interval when the significand is even. -/
def Double.onGrid? (d : Double) (power : Int) : Option Scientific :=
  let (low, middle, high) := d.interval
  let unit := d.exponent - 2
  -- both sides as whole numbers
  let binary := fun n : Nat => n * twoTo unit.toNat * tenTo (-power).toNat
  let decimal := fun n : Nat => n * tenTo power.toNat * twoTo (-unit).toNat
  let inside := fun n : Nat =>
    if d.significand % 2 == 0 then binary low ≤ decimal n && decimal n ≤ binary high
    else binary low < decimal n && decimal n < binary high
  let below := binary middle / decimal 1
  let above := below + 1
  let toBelow := binary middle - decimal below
  let toAbove := decimal above - binary middle
  match inside below, inside above with
  | false, false => none
  | true, false => some ⟨below, power⟩
  | false, true => some ⟨above, power⟩
  | true, true =>
    if toBelow < toAbove || (toBelow == toAbove && below % 2 == 0) then some ⟨below, power⟩
    else some ⟨above, power⟩

/-- The shortest decimal of a double that is not zero. The grids run from above the greatest
double to below the finest digit that any double needs. -/
def Double.shortest (d : Double) : Scientific :=
  ((List.range 700).findSome? fun step : Nat => d.onGrid? (309 - (step : Int))).getD ⟨0, 0⟩

/-- How a decimal is laid out in text. -/
structure Layout where
  /-- The least exponent, that of the first digit, which is still written with a plain point. -/
  minPlain : Int
  /-- The greatest such exponent. -/
  maxPlain : Int

/-- A digit string with a point after its first digit. -/
def pointed : List Char → List Char
  | [] => []
  | [c] => [c]
  | c :: s => c :: '.' :: s

/-- The text of a decimal. A plain number always has a point with a digit on either side of it;
the exponent of any other carries its sign. -/
def Layout.render (layout : Layout) (d : Scientific) : List Char :=
  let digits := Nat.toDigits 10 d.digits
  let first := d.exponent + digits.length - 1
  if layout.minPlain ≤ first && first ≤ layout.maxPlain then
    if 0 ≤ d.exponent then digits ++ List.replicate d.exponent.toNat '0' ++ ['.', '0']
    else if 0 ≤ first then
      digits.take (first.toNat + 1) ++ '.' :: digits.drop (first.toNat + 1)
    else '0' :: '.' :: List.replicate (-first - 1).toNat '0' ++ digits
  else
    pointed digits ++ 'e' :: (if first < 0 then '-' else '+') :: Nat.toDigits 10 first.natAbs

/-- The text of a double. -/
def Layout.renderDouble (layout : Layout) (negative : Bool) (d : Double) : String :=
  let sign := if negative then ['-'] else []
  String.ofList (sign ++ if d.isZero then ['0', '.', '0'] else layout.render d.shortest)

end SessionPool.Decimal
