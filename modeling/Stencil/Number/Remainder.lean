import Stencil.Number.Binary

/-!
# The remainder of floats

The remainder of `x` by `y` is the exact difference of `x` and the largest multiple of `y`, toward
zero, that does not pass it; it has the sign of `x`. It is always a float, so nothing is rounded.
-/

namespace Stencil.Number

/-- Both numbers as multiples of the smaller one of their powers of two, and its exponent. -/
def Binary.aligned (a b : Binary) : Nat × Nat × Int :=
  let exponent := min a.exponent b.exponent
  (a.mantissa <<< (a.exponent - exponent).toNat, b.mantissa <<< (b.exponent - exponent).toNat,
    exponent)

/-- The remainder of `x` by `y`. It is undefined for an infinite `x` and for a zero `y`, and an
infinite `y` leaves `x` alone. -/
def remainder (x y : Float) : Float :=
  if x.isNaN || y.isNaN || x.isInf || y == 0.0 then 0.0 / 0.0
  else if y.isInf then x
  else
    let (a, b, exponent) := (Binary.ofFloat x).aligned (Binary.ofFloat y)
    Binary.toFloat (isNegative x) ⟨a % b, exponent⟩

end Stencil.Number
