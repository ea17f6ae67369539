import Stencil.Error
import Stencil.Json.Parse
import Stencil.Markup.Parse

/-!
# Configuration

The limits and switches of an engine, and their JSON documents. A document is an object with some of
the settings by name, or an array with the first few of them in their order; what it leaves out has
its default.
-/

namespace Stencil

/-- The settings of an engine. -/
structure Config where
  /-- How deep containers may be nested in a template. -/
  maxDepth : Nat := 64
  /-- How long a chain of inclusions may be. -/
  maxInclusionDepth : Nat := 32
  /-- Whether the bodies of containers are trimmed. -/
  trimBodies : Bool := false
deriving Repr, DecidableEq, Inhabited

namespace Config

/-- How an engine with these settings reads templates. -/
def parseOptions (c : Config) : Markup.ParseOptions := ⟨c.maxDepth, c.trimBodies⟩

/-- The names of the settings. -/
inductive Setting where
  | maxDepth
  | maxInclusionDepth
  | trimBodies
deriving Repr, DecidableEq

/-- The settings in the order of array documents. -/
def Setting.all : List Setting := [.maxDepth, .maxInclusionDepth, .trimBodies]

/-- The name of a setting in object documents. -/
def Setting.name : Setting → String
  | maxDepth => "max_depth"
  | maxInclusionDepth => "max_include_depth"
  | trimBodies => "trim_block_content"

/-- A limit: an integer of 64 bits without a sign. -/
def limit? : Json → Option Nat
  | .number n =>
    if n.integral && !n.negative && n.mantissa < UInt64.size then some n.mantissa else none
  | _ => none

/-- The configuration with one setting read from a JSON value. -/
def set? (c : Config) (s : Setting) (j : Json) : Option Config :=
  match s with
  | .maxDepth => (limit? j).map fun n => { c with maxDepth := n }
  | .maxInclusionDepth => (limit? j).map fun n => { c with maxInclusionDepth := n }
  | .trimBodies =>
    match j with
    | .bool b => some { c with trimBodies := b }
    | _ => none

/-- The configuration of an array document. -/
def ofItems (c : Config) : List Setting → List Json → Option Config
  | _, [] => some c
  | [], _ :: _ => none
  | s :: settings, j :: items => (c.set? s j).bind fun c => c.ofItems settings items

/-- The configuration of an object document. A name has to be that of a setting and may occur only
once; `unset` are the settings whose names have not occurred. -/
def ofFields (c : Config) (unset : List Setting) : List (String × Json) → Option Config
  | [] => some c
  | (name, j) :: fields =>
    match unset.find? fun s => s.name = name with
    | none => none
    | some s => (c.set? s j).bind fun c => c.ofFields (unset.filter (· ≠ s)) fields

/-- The configuration of a JSON document. -/
def ofJson : Json → Except Error Config
  | .object fields => ((ofFields {} Setting.all fields).map .ok).getD (.error .invalidConfig)
  | .array items => ((ofItems {} Setting.all items).map .ok).getD (.error .invalidConfig)
  | _ => .error .invalidConfig

/-- The configuration of a JSON text. -/
def parse (text : String) : Except Error Config :=
  match Json.parse text with
  | some j => ofJson j
  | none => .error .invalidConfig

end Config

end Stencil
