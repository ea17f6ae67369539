import Stencil.Json.Basic
import Stencil.Number.Integer
import Stencil.Number.Read
import Stencil.Value.Basic

/-!
# Values from JSON

A JSON number that was written as an integer and fits 64 bits is an integer; any other number is the
nearest float. Of repeated names in an object the last one counts.
-/

namespace Stencil

namespace JsonNumber

/-- The number as an integer, if it was written as one. A negative zero is none. -/
def int? (n : JsonNumber) : Option Int :=
  if n.integral && !(n.negative && n.mantissa = 0) then
    some (if n.negative then -(n.mantissa : Int) else n.mantissa)
  else none

/-- The float nearest to the number. -/
def toFloat (n : JsonNumber) : Float :=
  let magnitude := Number.nearestFloat n.mantissa n.exponent
  if n.negative then -magnitude else magnitude

end JsonNumber

namespace Value

/-- The value of a JSON number. -/
def ofNumber (n : JsonNumber) : Value :=
  match n.int?.bind int64? with
  | some i => int i
  | none => float n.toFloat

mutual

/-- The value of a JSON document. -/
def ofJson : Json → Value
  | .null => null
  | .bool b => bool b
  | .number n => ofNumber n
  | .str s => str s
  | .array items => array (ofItems items)
  | .object fields => object (Fields.ofList (ofFields fields))

/-- The values of the items of an array. -/
def ofItems : List Json → List Value
  | [] => []
  | item :: items => ofJson item :: ofItems items

/-- The values of the fields of an object. -/
def ofFields : List (String × Json) → List (String × Value)
  | [] => []
  | (name, json) :: fields => (name, ofJson json) :: ofFields fields

end

end Value

end Stencil
