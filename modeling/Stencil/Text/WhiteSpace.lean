import Stencil.Text.CharSet

/-!
# White space

The 25 characters with the property White_Space, and the removal of them from the ends of a text.
-/

namespace Stencil.Text

/-- The code points with the property White_Space, as ascending inclusive ranges. -/
def whiteSpaceRanges : List (Nat × Nat) := [
  (0x9, 0xD), (0x20, 0x20), (0x85, 0x85), (0xA0, 0xA0), (0x1680, 0x1680), (0x2000, 0x200A),
  (0x2028, 0x2029), (0x202F, 0x202F), (0x205F, 0x205F), (0x3000, 0x3000)]

theorem ascending_whiteSpaceRanges : Ascending whiteSpaceRanges := by
  decide

/-- A character with the property White_Space. -/
def isWhiteSpace (c : Char) : Bool := inRanges c.toNat whiteSpaceRanges

theorem isWhiteSpace_iff {c : Char} :
    isWhiteSpace c = true ↔ ∃ r ∈ whiteSpaceRanges, r.1 ≤ c.toNat ∧ c.toNat ≤ r.2 :=
  inRanges_iff ascending_whiteSpaceRanges

/-- The leading white space of a text. -/
def blanks (cs : List Char) : List Char := cs.takeWhile isWhiteSpace

/-- The text without its leading white space. -/
def trimStart (cs : List Char) : List Char := cs.dropWhile isWhiteSpace

/-- The text without its trailing white space. -/
def trimEnd (cs : List Char) : List Char := (cs.reverse.dropWhile isWhiteSpace).reverse

/-- The trailing white space of a text. -/
def trailingBlanks (cs : List Char) : List Char := (cs.reverse.takeWhile isWhiteSpace).reverse

/-- The text without white space at either end. -/
def trim (cs : List Char) : List Char := trimEnd (trimStart cs)

/-- A text of white space only. -/
def isBlank (cs : List Char) : Bool := cs.all isWhiteSpace

theorem blanks_append_trimStart (cs : List Char) : blanks cs ++ trimStart cs = cs :=
  List.takeWhile_append_dropWhile

theorem trimEnd_append_trailingBlanks (cs : List Char) : trimEnd cs ++ trailingBlanks cs = cs := by
  rw [trimEnd, trailingBlanks, ← List.reverse_append, List.takeWhile_append_dropWhile,
    List.reverse_reverse]

theorem length_trimStart_le (cs : List Char) : (trimStart cs).length ≤ cs.length := by
  have h := congrArg List.length (blanks_append_trimStart cs)
  rw [List.length_append] at h
  omega

end Stencil.Text
