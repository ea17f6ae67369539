import Stencil.Text.Bytes
import Stencil.Text.Search
import Stencil.Text.WhiteSpace

/-!
# Inline expressions

An inline expression is written `${ e }`. It ends at the first closing brace, and white space
around the expression does not belong to it. Where the expression would hold a line feed, the text
is no inline expression.

`Inline.find?` cuts a text at its first inline expression without losing a character
(`Inline.find?_eq`).
-/

namespace Stencil.Markup

open Stencil.Text

/-- An inline expression as it stands in a text, and the text after it. -/
structure Inline where
  /-- The opening brace and the white space after it. -/
  opening : List Char
  expression : List Char
  /-- White space and the closing brace. -/
  closing : List Char
  after : List Char

namespace Inline

/-- The inline expression that begins here. -/
def read : List Char → Option Inline
  | '$' :: '{' :: cs =>
    match splitAtWord ['}'] cs with
    | none => none
    | some (inner, after) =>
      if '\n' ∈ trim inner then none
      else some {
        opening := '$' :: '{' :: blanks inner
        expression := trim inner
        closing := trailingBlanks (trimStart inner) ++ ['}']
        after := after }
  | _ => none

/-- The text before the first inline expression, and that expression. -/
def find? : List Char → Option (List Char × Inline)
  | [] => none
  | c :: cs =>
    match read (c :: cs) with
    | some i => some ([], i)
    | none => (find? cs).map fun p => (c :: p.1, p.2)

/-- The first inline expression of `source` between two byte offsets, and the text between the first
offset and it. -/
def findIn? (source : List Char) (start stop : Nat) : Option (List Char × Inline) :=
  find? (slice start stop source)

/-- The inline expression itself, from the dollar sign to the closing brace. -/
def extent (i : Inline) : List Char := i.opening ++ i.expression ++ i.closing

/-- The text that an inline expression was cut from. -/
def whole (i : Inline) : List Char := i.extent ++ i.after

/-- An inline expression is what stands between its braces, up to white space. -/
theorem read_inv {cs : List Char} {i : Inline} (h : read cs = some i) :
    ∃ inner, cs = '$' :: '{' :: (inner ++ '}' :: i.after) ∧
      i.extent = '$' :: '{' :: (inner ++ ['}']) ∧ trim inner = i.expression := by
  unfold read at h
  split at h
  · split at h
    · cases h
    · rename_i inner after hs
      split at h
      · cases h
      · cases h
        have hinner : inner =
            blanks inner ++ (trim inner ++ trailingBlanks (trimStart inner)) := by
          rw [trim, trimEnd_append_trailingBlanks, blanks_append_trimStart]
        refine ⟨inner, by simpa using splitAtWord_eq hs, ?_, rfl⟩
        conv => rhs; rw [hinner]
        simp [extent]
  · cases h

theorem read_eq {cs : List Char} {i : Inline} (h : read cs = some i) : cs = i.whole := by
  obtain ⟨inner, hcs, hextent, -⟩ := read_inv h
  rw [whole, hextent, hcs]
  simp

theorem opening_ne_nil {cs : List Char} {i : Inline} (h : read cs = some i) :
    i.opening ≠ [] := by
  unfold read at h
  split at h
  · split at h
    · cases h
    · split at h
      · cases h
      · cases h
        simp
  · cases h

theorem find?_eq {cs before : List Char} {i : Inline} (h : find? cs = some (before, i)) :
    cs = before ++ i.whole := by
  induction cs generalizing before with
  | nil => cases h
  | cons c cs ih =>
    unfold find? at h
    split at h
    · rename_i j hj
      obtain ⟨rfl, rfl⟩ := Prod.mk.inj (Option.some.inj h)
      exact read_eq hj
    · obtain ⟨p, hp, he⟩ := Option.map_eq_some_iff.1 h
      obtain ⟨rfl, rfl⟩ := Prod.mk.inj he
      have := ih hp
      simp only [this, List.cons_append]

theorem opening_ne_nil_of_find? {cs before : List Char} {i : Inline}
    (h : find? cs = some (before, i)) : i.opening ≠ [] := by
  induction cs generalizing before with
  | nil => cases h
  | cons c cs ih =>
    unfold find? at h
    split at h
    · rename_i j hj
      obtain ⟨rfl, rfl⟩ := Prod.mk.inj (Option.some.inj h)
      exact opening_ne_nil hj
    · obtain ⟨p, hp, he⟩ := Option.map_eq_some_iff.1 h
      obtain ⟨rfl, rfl⟩ := Prod.mk.inj he
      exact ih hp

end Inline

end Stencil.Markup
