import Stencil.Number.Layout
import Stencil.Value.Basic

/-!
# The text of values

How a value appears in rendered text. Null is nothing, a string stands for itself, and a float
always shows that it is one.
-/

namespace Stencil

/-- Floats are written without an exponent where the first digit is at most four places behind the
point and at most sixteen before it, and an integral float keeps a zero behind the point. -/
def displayLayout : Number.Layout where
  isPlain e := -5 < e && e < 16
  pointZero := true

/-- The text of a float in rendered output. -/
def displayFloat (x : Float) : String := displayLayout.text x

/-- The text of an integer. -/
def displayInt (n : Int64) : String := toString n.toInt

namespace Value

mutual

/-- The text of a value. -/
def display : Value → String
  | null => ""
  | bool b => if b then "true" else "false"
  | int n => displayInt n
  | float x => displayFloat x
  | str s => s
  | array items => "[" ++ String.intercalate ", " (displayItems items) ++ "]"
  | object fields => "\x7b" ++ String.intercalate ", " (displayFields fields) ++ "\x7d"

/-- The texts of the items of an array. -/
def displayItems : List Value → List String
  | [] => []
  | item :: items => display item :: displayItems items

/-- The texts of the fields of an object. -/
def displayFields : List (String × Value) → List String
  | [] => []
  | (name, value) :: fields => (name ++ "=" ++ display value) :: displayFields fields

end

end Value

end Stencil
