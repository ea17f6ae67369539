import Stencil.Fields
import Stencil.Number.Integer

/-!
# Values

The data that templates are rendered against: null, truth values, 64-bit integers, floats, strings,
arrays and objects. The fields of an object stand in the order of their names.

`Value.same` is structural equality: an integer is never the same as a float, and a NaN is not the
same as itself.
-/

namespace Stencil

/-- A value. -/
inductive Value where
  | null
  | bool (b : Bool)
  | int (n : Int64)
  | float (x : Float)
  | str (s : String)
  | array (items : List Value)
  | object (fields : List (String × Value))

/-- The types of values. -/
inductive ValueType where
  | null
  | boolean
  | integer
  | float
  | string
  | array
  | object
deriving Repr, DecidableEq

/-- The name of a type in messages. -/
def ValueType.name : ValueType → String
  | null => "Null"
  | boolean => "Boolean"
  | integer => "Integer"
  | float => "Float"
  | string => "String"
  | array => "Array"
  | object => "Object"

/-- The types of numbers. -/
def ValueType.isNumeric : ValueType → Bool
  | integer => true
  | float => true
  | _ => false

namespace Value

/-- The type of a value. -/
def type : Value → ValueType
  | null => .null
  | bool _ => .boolean
  | int _ => .integer
  | float _ => .float
  | str _ => .string
  | array _ => .array
  | object _ => .object

/-- Whether a value is null. -/
def isNull : Value → Bool
  | null => true
  | _ => false

/-- The truth value that a value is. -/
def bool? : Value → Option Bool
  | bool b => some b
  | _ => none

/-- The items of an array. -/
def items? : Value → Option (List Value)
  | array items => some items
  | _ => none

/-- The number that a value is, as a float; a large integer is rounded. -/
def float? : Value → Option Float
  | int n => some (floatOfInt64 n)
  | float x => some x
  | _ => none

mutual

/-- Structural equality. -/
def same : Value → Value → Bool
  | null, null => true
  | bool a, bool b => a == b
  | int a, int b => a == b
  | float a, float b => a == b
  | str a, str b => a == b
  | array a, array b => sameItems a b
  | object a, object b => sameFields a b
  | _, _ => false

/-- Structural equality of the items of two arrays. -/
def sameItems : List Value → List Value → Bool
  | [], [] => true
  | a :: as, b :: bs => same a b && sameItems as bs
  | _, _ => false

/-- Structural equality of the fields of two objects. -/
def sameFields : List (String × Value) → List (String × Value) → Bool
  | [], [] => true
  | (n, a) :: as, (m, b) :: bs => n == m && same a b && sameFields as bs
  | _, _ => false

end

end Value

end Stencil
