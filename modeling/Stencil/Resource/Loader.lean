import Stencil.Error
import Stencil.Fields

/-!
# Loaders

A loader turns the name of a template into its text. Names that mean the same template are to have
the same canonical name.

`Shelf` holds texts in memory. One slash at the beginning of a name does not count (`stripRoot`),
and a name loads what was put last under it (`Shelf.load_put`).
-/

namespace Stencil

/-- A source of template texts. -/
structure Loader where
  canonicalName : String → String
  load : String → Except Error String

/-- A name without one slash at its beginning. -/
def stripRoot (name : String) : String :=
  match name.toList with
  | '/' :: rest => String.ofList rest
  | _ => name

/-- Template texts in memory, under names without a slash at the beginning. -/
abbrev Shelf := Fields String

namespace Shelf

/-- The shelf with a text put under a name. -/
def put (shelf : Shelf) (name text : String) : Shelf := Fields.insert (stripRoot name) text shelf

/-- The shelf with these texts, put in order. -/
def ofList (texts : List (String × String)) : Shelf :=
  texts.foldl (fun shelf t => shelf.put t.1 t.2) []

/-- The loader that reads from a shelf. -/
def loader (shelf : Shelf) : Loader where
  canonicalName := stripRoot
  load name :=
    match Fields.get? (stripRoot name) shelf with
    | some text => .ok text
    | none => .error (.resourceNotFound name)

theorem load_put (shelf : Shelf) (name other text : String) :
    (shelf.put name text).loader.load other =
      if stripRoot name = stripRoot other then .ok text else shelf.loader.load other := by
  simp only [loader, put, Fields.get?_insert]
  by_cases h : stripRoot name = stripRoot other <;> simp [h]

end Shelf

end Stencil
