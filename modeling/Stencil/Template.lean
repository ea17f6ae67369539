import Stencil.Markup.Block

/-!
# Templates

A template is a block tree together with the texts of those of its static blocks that have been
rendered. A static block is identified by its place in the tree, and its text is written once: a
later text for the same place does not replace it (`Cells.keep`).
-/

namespace Stencil

/-- A place in a block tree: the indices of a block and of the blocks around it, from the inside
out. -/
abbrev Place := List Nat

/-- The texts of rendered static blocks, by place. -/
abbrev Cells := List (Place × String)

namespace Cells

/-- The text of the static block at a place. -/
def get? (place : Place) : Cells → Option String
  | [] => none
  | (p, text) :: cells => if p = place then some text else get? place cells

/-- The cells with a text for a place, unless it has one. -/
def keep (place : Place) (text : String) (cells : Cells) : Cells :=
  match cells.get? place with
  | some _ => cells
  | none => (place, text) :: cells

theorem get?_keep (place other : Place) (text : String) (cells : Cells) :
    (cells.keep place text).get? other =
      (cells.get? other).or (if place = other then some text else none) := by
  unfold keep
  split
  · rename_i t h
    split
    · rename_i he
      rw [← he, h]
      rfl
    · simp
  · rename_i h
    simp only [get?]
    split
    · rename_i he
      rw [← he, h]
      rfl
    · simp

end Cells

/-- A template: its blocks, and the texts of its static blocks as far as they are known. -/
structure Template where
  blocks : List Markup.Block
  cells : Cells := []
deriving DecidableEq

/-- The text of the static block at a place, if it has been rendered. -/
def Template.resolved (t : Template) (place : Place) : Option String := t.cells.get? place

end Stencil
