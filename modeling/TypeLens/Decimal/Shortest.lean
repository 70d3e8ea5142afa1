/-!
# Shortest decimals

The text of a binary number is made from the fewest decimal digits that still read back as the
same number. `Binary` is a positive binary number `mantissa · 2 ^ exponent` together with the
spacing of its neighbours; the reals that round to it form an interval around it, and `shortest`
looks for the first decimal grid, coarsest first, that has a point in that interval.

On each grid only the two neighbours of the number can be inside, so two tests are enough; of two
points inside, the nearer one wins, and the even one when both are equally near. All comparisons
are exact, in natural numbers.
-/

namespace TypeLens.Decimal

/-- A positive binary number `mantissa · 2 ^ exponent`. -/
structure Binary where
  /-- The significant bits. -/
  mantissa : Nat
  /-- The power of two of the last bit. -/
  exponent : Int
  /-- Whether the next smaller number is only half as far away as the next larger one. -/
  narrowBelow : Bool
deriving Repr, DecidableEq

/-- A decimal number `digits · 10 ^ exponent`. -/
structure Digits where
  /-- The significant digits as one number. -/
  digits : Nat
  /-- The power of ten of the last digit. -/
  exponent : Int
deriving Repr, DecidableEq

/-- A nonnegative fraction that stands for `numerator / denominator`. -/
structure Fraction where
  /-- The numerator. -/
  numerator : Nat
  /-- The denominator, never zero. -/
  denominator : Nat
deriving Repr, DecidableEq

namespace Fraction

/-- The fraction `n · 2 ^ e`. -/
def ofBinary (n : Nat) (e : Int) : Fraction :=
  ⟨n * Nat.pow 2 e.toNat, Nat.pow 2 (-e).toNat⟩

/-- The fraction `n · 10 ^ e`. -/
def ofDecimal (n : Nat) (e : Int) : Fraction :=
  ⟨n * Nat.pow 10 e.toNat, Nat.pow 10 (-e).toNat⟩

/-- Comparison of two fractions. -/
def compare (x y : Fraction) : Ordering :=
  Ord.compare (x.numerator * y.denominator) (y.numerator * x.denominator)

/-- The largest natural number `d` with `d · 10 ^ e` at most `x`. -/
def floorOn (x : Fraction) (e : Int) : Nat :=
  (x.numerator * Nat.pow 10 (-e).toNat) / (x.denominator * Nat.pow 10 e.toNat)

/-- The distance of two fractions. -/
def distance (x y : Fraction) : Fraction :=
  let a := x.numerator * y.denominator
  let b := y.numerator * x.denominator
  ⟨(a - b) + (b - a), x.denominator * y.denominator⟩

/-- The least `k` with `x < 10 ^ k`, for a positive `x`. -/
def magnitude (x : Fraction) : Int :=
  if x.denominator ≤ x.numerator then
    (Nat.toDigits 10 (x.numerator / x.denominator)).length
  else
    let k : Int := 1 - (Nat.toDigits 10 (x.denominator / x.numerator)).length
    if (compare (ofDecimal 1 k) x).isLE then k + 1 else k

end Fraction

namespace Binary

/-- The number itself as a fraction. -/
def value (b : Binary) : Fraction :=
  .ofBinary b.mantissa b.exponent

/-- The lower end of the interval of reals that round to the number. -/
def lower (b : Binary) : Fraction :=
  .ofBinary (4 * b.mantissa - if b.narrowBelow then 1 else 2) (b.exponent - 2)

/-- The upper end of the interval of reals that round to the number. -/
def upper (b : Binary) : Fraction :=
  .ofBinary (4 * b.mantissa + 2) (b.exponent - 2)

/-- Whether a real rounds to the number: it lies inside the interval, or at one of its ends and the
number is even. -/
def covers (b : Binary) (x : Fraction) : Bool :=
  if b.mantissa % 2 = 0 then (b.lower.compare x).isLE && (x.compare b.upper).isLE
  else (b.lower.compare x).isLT && (x.compare b.upper).isLT

/-- The point of the grid `10 ^ e` that reads back as the number and is nearest to it. -/
def onGrid? (b : Binary) (e : Int) : Option Digits :=
  let low := b.value.floorOn e
  let lowFraction := Fraction.ofDecimal low e
  let highFraction := Fraction.ofDecimal (low + 1) e
  let takesHigh :=
    match (b.value.distance lowFraction).compare (b.value.distance highFraction) with
    | .lt => false
    | .gt => true
    | .eq => low % 2 == 1
  match b.covers lowFraction, b.covers highFraction with
  | true, true => some ⟨if takesHigh then low + 1 else low, e⟩
  | true, false => some ⟨low, e⟩
  | false, true => some ⟨low + 1, e⟩
  | false, false => none

/-- The shortest decimal that reads back as the number. Seventeen digits always suffice. -/
def shortest (b : Binary) : Digits :=
  let k := b.value.magnitude
  ((List.range 17).findSome? fun (n : Nat) ↦ b.onGrid? (k - 1 - n)).getD
    ⟨b.value.floorOn (k - 17), k - 17⟩

end Binary

end TypeLens.Decimal
