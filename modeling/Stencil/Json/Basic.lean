/-!
# JSON documents

`Json` keeps of a document what its readers may ask for: the fields of an object in their order,
repeated names included, and for a number whether it was written as an integer.
-/

namespace Stencil

/-- A number as it was written: `mantissa * 10 ^ exponent`, with a sign. -/
structure JsonNumber where
  negative : Bool
  mantissa : Nat
  exponent : Int
  /-- Whether there was neither a fraction nor an exponent part. -/
  integral : Bool
deriving Repr, DecidableEq

/-- A JSON document. -/
inductive Json where
  | null
  | bool (b : Bool)
  | number (n : JsonNumber)
  | str (s : String)
  | array (items : List Json)
  | object (fields : List (String × Json))

end Stencil
