import Stencil.Markup.Location
import Stencil.Markup.Tag

/-!
# Errors of templates

What can be wrong with the text of a template, with the place of the tag at fault, and the message
for each.
-/

namespace Stencil.Markup

/-- What is wrong with the form of a tag. -/
inductive Malformation where
  /-- No `>` ends the opening tag. -/
  | openEnded
  /-- No closing tag matches the opening tag. -/
  | unclosed
  /-- The loop variable is no identifier. -/
  | badVariable (name : String)
deriving Repr, DecidableEq

/-- An error in the text of a template. -/
inductive MarkupError where
  | malformedTag (tag : Tag) (fault : Malformation) (location : Location)
  | missingAttribute (wanted : String) (tag : Tag) (location : Location)
  | depthExceeded (limit : Nat) (location : Location)
deriving Repr, DecidableEq

/-- The words for a malformed tag. -/
def Malformation.message (tag : Tag) : Malformation → String
  | openEnded => "opening tag is not terminated by '>'"
  | unclosed => "no matching '" ++ String.ofList tag.closer ++ "' found"
  | badVariable name => "loop variable '" ++ name ++ "' is not an identifier"

namespace MarkupError

/-- The place of the tag at fault. -/
def location : MarkupError → Location
  | malformedTag _ _ l => l
  | missingAttribute _ _ l => l
  | depthExceeded _ l => l

/-- The words for a location. -/
def place (l : Location) : String :=
  "line " ++ toString l.line ++ ", column " ++ toString l.column

/-- The message of an error. -/
def message : MarkupError → String
  | malformedTag tag fault l =>
    "malformed <" ++ tag.name ++ "> tag at " ++ place l ++ ": " ++ fault.message tag
  | missingAttribute wanted tag l =>
    "<" ++ tag.name ++ "> block at " ++ place l ++ " is missing required attribute '" ++
      wanted ++ "'"
  | depthExceeded limit l =>
    "nesting depth exceeds limit of " ++ toString limit ++ " at " ++ place l

end MarkupError

/-- A result that was mapped comes from a result. -/
theorem map_eq_ok_iff {ε α β : Type} {f : α → β} {x : Except ε α} {b : β} :
    x.map f = .ok b ↔ ∃ a, x = .ok a ∧ f a = b := by
  cases x <;> simp [Except.map]

theorem map_eq_error_iff {ε α β : Type} {f : α → β} {x : Except ε α} {e : ε} :
    x.map f = .error e ↔ x = .error e := by
  cases x <;> simp [Except.map]

end Stencil.Markup

namespace Stencil

/-- A result can be told from the option that is left of it without the error. -/
theorem eq_ok_of_toOption {ε α : Type} {r : Except ε α} {a : α} (h : r.toOption = some a) :
    r = .ok a := by
  cases r with
  | error e => cases h
  | ok a' =>
    cases h
    rfl

/-- The error of a result that is one. -/
def error? {ε α : Type} : Except ε α → Option ε
  | .error e => some e
  | .ok _ => none

theorem eq_error_of_error? {ε α : Type} {r : Except ε α} {e : ε} (h : error? r = some e) :
    r = .error e := by
  cases r with
  | error e' =>
    cases h
    rfl
  | ok a => cases h

end Stencil
