import Stencil.Text.Bytes

/-!
# Locations in a template

A location names a place in a template three ways: line and column, both counted from 1, and byte
offset. Columns count characters. `Location.after` moves a location over a piece of text, and the
location of a byte offset is the start moved over everything before it (`Location.ofOffset`).
-/

namespace Stencil.Markup

open Stencil.Text

/-- A place in a template. -/
structure Location where
  line : Nat
  column : Nat
  offset : Nat
deriving Repr, DecidableEq, Inhabited

namespace Location

/-- The beginning of a template. -/
def start : Location := ⟨1, 1, 0⟩

/-- The place after the character `c`; a line feed begins a new line. -/
def advance (l : Location) (c : Char) : Location :=
  if c = '\n' then ⟨l.line + 1, 1, l.offset + c.utf8Size⟩
  else ⟨l.line, l.column + 1, l.offset + c.utf8Size⟩

/-- The place after the text `cs`. -/
def after (l : Location) (cs : List Char) : Location := cs.foldl advance l

/-- The location of a byte offset into `source`; an offset past the end is the end. -/
def ofOffset (source : List Char) (offset : Nat) : Location :=
  start.after (takeBytes offset source)

@[simp] theorem after_nil (l : Location) : l.after [] = l := rfl

@[simp] theorem after_cons (l : Location) (c : Char) (cs : List Char) :
    l.after (c :: cs) = (l.advance c).after cs := rfl

theorem after_append (l : Location) (cs ds : List Char) :
    l.after (cs ++ ds) = (l.after cs).after ds := List.foldl_append

theorem offset_advance (l : Location) (c : Char) :
    (l.advance c).offset = l.offset + c.utf8Size := by
  unfold advance
  split <;> rfl

theorem offset_after (l : Location) (cs : List Char) :
    (l.after cs).offset = l.offset + utf8Length cs := by
  induction cs generalizing l with
  | nil => rfl
  | cons c cs ih => rw [after_cons, ih, offset_advance, utf8Length_cons, Nat.add_assoc]

end Location

end Stencil.Markup
