import Stencil.Number.Binary

/-!
# The fewest digits that read back

Every finite float other than zero is the rounded value of an interval of numbers: from half way to
the float below to half way to the float above, both ends included when its mantissa is even.
`shortest` gives the decimal number with the fewest digits in that interval, the nearest of those to
the float, and the larger one of two that are equally near.

The search goes from coarse to fine powers of ten. On each grid the two neighbours of the float are
tried; all arithmetic is exact.
-/

namespace Stencil.Number

/-- The number `digits * 10 ^ exponent`. -/
structure Decimal where
  digits : Nat
  exponent : Int
deriving Repr, DecidableEq

/-- The numbers that round to a float, and the float itself, in units of `2 ^ unit`. -/
structure Interval where
  low : Nat
  middle : Nat
  high : Nat
  unit : Int
  /-- Whether both ends belong to it. -/
  closed : Bool
deriving Repr, DecidableEq

/-- The interval of a float. Right above a power of two the float below is half as far away as the
float above. -/
def Interval.ofFloat (x : Float) : Interval :=
  let b := Binary.ofFloat x
  let narrow := fractionField x == 0 && 1 < exponentField x
  { low := 4 * b.mantissa - (if narrow then 1 else 2)
    middle := 4 * b.mantissa
    high := 4 * b.mantissa + 2
    unit := b.exponent - 2
    closed := b.mantissa % 2 == 0 }

/-- Numerator of `2 ^ unit / 10 ^ grid`. -/
def gridNumerator (unit grid : Int) : Nat := Nat.pow 2 unit.toNat * Nat.pow 10 (-grid).toNat

/-- Denominator of `2 ^ unit / 10 ^ grid`. -/
def gridDenominator (unit grid : Int) : Nat := Nat.pow 2 (-unit).toNat * Nat.pow 10 grid.toNat

/-- Whether `digits * 10 ^ grid` lies in the interval. -/
def Interval.contains (i : Interval) (digits : Nat) (grid : Int) : Bool :=
  let number := digits * gridDenominator i.unit grid
  let low := i.low * gridNumerator i.unit grid
  let high := i.high * gridNumerator i.unit grid
  if i.closed then low ≤ number && number ≤ high else low < number && number < high

/-- The multiple of `10 ^ grid` in the interval that is nearest to the middle, of the two multiples
around the middle. -/
def Interval.onGrid? (i : Interval) (grid : Int) : Option Nat :=
  let middle := i.middle * gridNumerator i.unit grid
  let step := gridDenominator i.unit grid
  let below := middle / step
  match i.contains below grid, i.contains (below + 1) grid with
  | true, true => some (if 2 * middle < (2 * below + 1) * step then below else below + 1)
  | true, false => some below
  | false, true => some (below + 1)
  | false, false => none

/-- The number of decimal digits. -/
def decimalLength (n : Nat) : Nat := (Nat.toDigits 10 n).length

/-- The exponent of the power of ten right above the middle of the interval. -/
def Interval.scale (i : Interval) : Int :=
  let numerator := i.middle * Nat.pow 2 i.unit.toNat
  let denominator := Nat.pow 2 (-i.unit).toNat
  if denominator ≤ numerator then decimalLength (numerator / denominator)
  else
    let length := decimalLength (denominator / numerator)
    if numerator * Nat.pow 10 (length - 1) = denominator then 2 - (length : Int)
    else 1 - (length : Int)

/-- The same number without trailing zeros in its digits. -/
def Decimal.stripZeros (d : Decimal) : Decimal :=
  if h : d.digits ≠ 0 ∧ d.digits % 10 = 0 then
    stripZeros ⟨d.digits / 10, d.exponent + 1⟩
  else d
termination_by d.digits
decreasing_by exact Nat.div_lt_self (Nat.pos_of_ne_zero h.1) (by decide)

/-- The decimal number with the fewest digits that reads back as the float, which is finite and not
zero. Seventeen digits always do. -/
def shortest (x : Float) : Decimal :=
  let interval := Interval.ofFloat x
  let scale := interval.scale
  let found := (List.range 17).findSome? fun n =>
    let grid := scale - ((n + 1 : Nat) : Int)
    (interval.onGrid? grid).map fun digits => Decimal.mk digits grid
  (found.getD ⟨0, 0⟩).stripZeros

end Stencil.Number
