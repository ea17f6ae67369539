import Mathlib.Data.List.Induction
import Stencil.Markup.Scanner

/-!
# Lines and columns are counted

The location of a byte offset is a start that was moved over the characters before it. Line and
column can as well be counted at the end: there are as many lines as line feeds before the offset,
and as many columns as characters behind the last of these (`Location.start_after_eq`). So the
location that the search by byte offsets computes is that of the offset (`Scanner.location?_eq`).
-/

namespace Stencil.Markup

open Stencil.Text

/-- The text up to its last line feed. -/
def lineHead (cs : List Char) : List Char := (cs.reverse.dropWhile (· ≠ '\n')).reverse

/-- The text behind its last line feed. -/
def lastLine (cs : List Char) : List Char := (cs.reverse.takeWhile (· ≠ '\n')).reverse

theorem lineHead_append_lastLine (cs : List Char) : lineHead cs ++ lastLine cs = cs := by
  rw [lineHead, lastLine, ← List.reverse_append, List.takeWhile_append_dropWhile,
    List.reverse_reverse]

theorem lastLine_append_lineFeed (cs : List Char) : lastLine (cs ++ ['\n']) = [] := by
  simp [lastLine]

theorem lastLine_append_of_ne {c : Char} (h : c ≠ '\n') (cs : List Char) :
    lastLine (cs ++ [c]) = lastLine cs ++ [c] := by
  simp [lastLine, h]

namespace Location

/-- The place behind a text, by its line feeds and the characters behind the last of them. -/
theorem start_after_eq (cs : List Char) :
    start.after cs = ⟨cs.count '\n' + 1, (lastLine cs).length + 1, utf8Length cs⟩ := by
  induction cs using List.reverseRecOn with
  | nil => rfl
  | append_singleton cs c ih =>
    rw [after_append, ih, after_cons, after_nil, advance]
    split
    · rename_i hc
      subst hc
      simp [lastLine_append_lineFeed]
    · rename_i hc
      simp [lastLine_append_of_ne hc, hc]

theorem ofOffset_utf8Length (before rest : List Char) :
    ofOffset (before ++ rest) (utf8Length before) = start.after before := by
  rw [ofOffset, takeBytes_utf8Length]

end Location

/-- The location of a boundary is computed without a slice that cannot be taken. -/
theorem Scanner.location?_eq {source : List Char} {offset : Nat}
    (h : isBoundary offset source = true) :
    location? source offset = some (Location.ofOffset source offset) := by
  obtain ⟨before, ⟨rest, rfl⟩, rfl⟩ := isBoundary_iff.1 h
  have hmin : min (utf8Length before) (utf8Length (before ++ rest)) = utf8Length before :=
    Nat.min_eq_left (by rw [utf8Length_append]; omega)
  have hbefore : slice? 0 (utf8Length before) (before ++ rest) = some before :=
    slice?_append [] before rest
  have hline : slice? (utf8Length (lineHead before)) (utf8Length before) before =
      some (lastLine before) := by
    have hslice := slice?_append (lineHead before) (lastLine before) []
    rwa [List.append_nil, lineHead_append_lastLine] at hslice
  rw [location?, hmin, hbefore, Option.bind_some, Location.ofOffset_utf8Length,
    Location.start_after_eq]
  exact congrArg (Option.map _) hline

end Stencil.Markup
