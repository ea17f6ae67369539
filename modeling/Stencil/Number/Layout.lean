import Stencil.Number.Shortest

/-!
# The text of numbers

A float is written with the fewest digits that read back. Where the decimal point stands, and
whether an integral number keeps a zero after it, is decided by a `Layout`.
-/

namespace Stencil.Number

/-- The decisions about the text of a float. -/
structure Layout where
  /-- The exponents of the leading digit that are written without an exponent part. -/
  isPlain : Int → Bool
  /-- Whether an integral number is written with `.0`. -/
  pointZero : Bool

/-- The decimal digits of a natural number. -/
def digitText (n : Nat) : List Char := Nat.toDigits 10 n

/-- A decimal number without an exponent part. -/
def Layout.plain (l : Layout) (d : Decimal) : List Char :=
  let digits := digitText d.digits
  if 0 ≤ d.exponent then
    digits ++ List.replicate d.exponent.toNat '0' ++ (if l.pointZero then ['.', '0'] else [])
  else
    let places := (-d.exponent).toNat
    if places < digits.length then
      digits.take (digits.length - places) ++ '.' :: digits.drop (digits.length - places)
    else
      '0' :: '.' :: (List.replicate (places - digits.length) '0' ++ digits)

/-- A decimal number with one digit before the point and an exponent part. -/
def scientific (d : Decimal) : List Char :=
  match digitText d.digits with
  | [] => []
  | first :: rest =>
    let exponent := d.exponent + rest.length
    let point := if rest.isEmpty then [] else '.' :: rest
    first :: point ++ 'e' :: (toString exponent).toList

/-- The text of a decimal number. -/
def Layout.decimal (l : Layout) (d : Decimal) : List Char :=
  if l.isPlain (d.exponent + (decimalLength d.digits : Int) - 1) then l.plain d else scientific d

/-- The text of a float. -/
def Layout.text (l : Layout) (x : Float) : String :=
  if x.isNaN then "NaN"
  else
    let sign := if isNegative x then ['-'] else []
    if x.isInf then String.ofList (sign ++ ['i', 'n', 'f'])
    else if x == 0.0 then String.ofList (sign ++ l.plain ⟨0, 0⟩)
    else String.ofList (sign ++ l.decimal (shortest x))

end Stencil.Number
