/-!
# Reading decimal numbers

The value of a run of digits, and the float nearest to a decimal number.
-/

namespace Stencil.Number

/-- The value of a decimal digit. -/
def digitValue (c : Char) : Nat := c.toNat - '0'.toNat

/-- The number written with these decimal digits. -/
def ofDigits (digits : List Char) : Nat :=
  digits.foldl (fun n c => 10 * n + digitValue c) 0

/-- The float nearest to `mantissa * 10 ^ exponent`. Where the number is far outside of the range of
floats, it is infinite or zero without any computation. -/
def nearestFloat (mantissa : Nat) (exponent : Int) : Float :=
  let magnitude := exponent + (Nat.toDigits 10 mantissa).length
  if mantissa = 0 ∨ magnitude < -400 then 0.0
  else if 400 < magnitude then 1.0 / 0.0
  else Float.ofScientific mantissa (exponent < 0) exponent.natAbs

end Stencil.Number
