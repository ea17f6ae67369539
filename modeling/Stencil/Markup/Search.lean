import Stencil.Markup.Attributes
import Stencil.Markup.Extent
import Stencil.Text.Pattern

/-!
# Searching by patterns

Inline expressions and attributes are described by patterns, and a text is searched for the first
place, or for all places, where the pattern matches.

* `Inline.searchIn?` returns the first match of the pattern of inline expressions in a range;
* `Attributes.search` collects all matches of the pattern of attributes and accepts the text if
  nothing but separators stands between them.

The readers that need no patterns find the same (`Stencil.Proofs.Markup.InlineSearch`,
`Stencil.Proofs.Markup.AttributeList`).
-/

namespace Stencil.Markup

open Stencil.Text

/-- White space, as much as possible. -/
def blankRun : Pattern := .many true (.one isWhiteSpace)

namespace Inline

/-- `${`, an expression without line feeds, and `}`, with white space around the expression. The
expression is as short as possible. -/
def pattern : List Pattern :=
  [.char '$', .char '{', blankRun, .many false (.alt (.one isWord) (.one (· ≠ '\n'))), blankRun,
    .char '}']

/-- The first match of the pattern between two byte offsets. -/
def searchIn? (source : List Char) (start stop : Nat) : Option Extent :=
  (Pattern.search pattern (slice start stop source)).map fun p =>
    let first := start + utf8Length p.1
    let pieces := p.2.pieces
    let expression := pieces.getD 3 []
    let bodyStart := first + utf8Length (pieces.take 3).flatten
    ⟨.inline, [], first, expression, bodyStart, bodyStart + utf8Length expression,
      first + utf8Length pieces.flatten⟩

end Inline

namespace Attributes

/-- A part of a quoted value: a character that is no quote and no backslash, or a backslash and the
character behind it, whichever it is. -/
def valuePart : Pattern :=
  .alt (.one fun c => c ≠ '\x27' && c ≠ '\\') (.seq (.char '\\') (.one fun _ => true))

/-- A name, a colon and a quoted value, with white space around the colon. -/
def pattern : List Pattern :=
  [.plus (.one isWord), blankRun, .char ':', blankRun, .char '\x27', .many true valuePart,
    .char '\x27']

/-- A value as it is written between quotes, with its backslashes read. -/
def unescapeText : List Char → List Char
  | [] => []
  | '\\' :: c :: cs => unescape c ++ unescapeText cs
  | c :: cs => c :: unescapeText cs

/-- The attribute that a match of the pattern stands for. -/
def item (pieces : List (List Char)) : String × String :=
  (String.ofList (pieces.getD 0 []), String.ofList (unescapeText (pieces.getD 5 [])))

/-- Whether a text may stand before the first attribute or between two attributes. -/
def isGap (leading : Bool) (gap : List Char) : Bool :=
  let gap := trim gap
  if leading then gap.isEmpty else gap.isEmpty || gap = [',']

/-- The attributes of the matches, each match with the text before it, if all of these texts are
gaps and only white space stands behind the last match. -/
def collect (leading : Bool) :
    List (List Char × List (List Char)) × List Char → Option (List (String × String))
  | ([], rest) => if (trim rest).isEmpty then some [] else none
  | ((gap, pieces) :: more, rest) =>
    if isGap leading gap then (collect false (more, rest)).map (item pieces :: ·) else none

/-- The attributes that the pattern finds in a text. -/
def search (cs : List Char) : Attributes :=
  match collect true (Pattern.searchAll pattern cs) with
  | some items => Fields.ofList items
  | none => []

end Attributes

end Stencil.Markup
