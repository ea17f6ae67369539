/-!
# Floats as exact binary numbers

A finite float is a sign and a natural number times a power of two. `Binary.ofFloat` reads the two
off the bits, and `Binary.toFloat` puts them together again where the number is a float.
-/

namespace Stencil.Number

/-- The number `mantissa * 2 ^ exponent`. -/
structure Binary where
  mantissa : Nat
  exponent : Int
deriving Repr, DecidableEq

/-- The leading bit of a mantissa, which the bits of a float leave out unless its exponent field is
zero. -/
def implicitBit : Nat := 0x10000000000000

/-- The sign bit of a float. -/
def signBit : Nat := 0x8000000000000000

/-- Whether the sign bit of a float is set. -/
def isNegative (x : Float) : Bool := x.toBits >>> 63 == 1

/-- The exponent field of a float. -/
def exponentField (x : Float) : Nat := ((x.toBits >>> 52) &&& 0x7FF).toNat

/-- The fraction field of a float. -/
def fractionField (x : Float) : Nat := (x.toBits &&& 0xFFFFFFFFFFFFF).toNat

namespace Binary

/-- The absolute value of a finite float. -/
def ofFloat (x : Float) : Binary :=
  match exponentField x with
  | 0 => ⟨fractionField x, -1074⟩
  | e + 1 => ⟨implicitBit + fractionField x, (e : Int) - 1074⟩

/-- The float with this absolute value and the given sign. The number has to be one that floats can
hold: at most 53 binary digits, the last one worth at least `2 ^ (-1074)`. -/
def toFloat (negative : Bool) (b : Binary) : Float :=
  let shift := min (52 - b.mantissa.log2) (b.exponent + 1074).toNat
  let mantissa := b.mantissa <<< shift
  let exponent := b.exponent - shift
  let magnitude :=
    if mantissa < implicitBit then mantissa
    else (exponent + 1075).toNat * implicitBit + (mantissa - implicitBit)
  Float.ofBits (UInt64.ofNat (if negative then signBit + magnitude else magnitude))

end Binary

end Stencil.Number
