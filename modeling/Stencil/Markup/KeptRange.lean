import Stencil.Markup.Range
import Stencil.Text.Utf8

/-!
# Trimming in place

What trimming keeps of a body, as byte offsets into the source (`KeptRange`). `KeptRange.trim?`
finds it by counting bytes in slices of the source, and `readBody?` reads a body by it. As in the
search by byte offsets there is no result if a slice is asked for that is out of bounds, or that
begins or ends inside a character.

That a range between two boundaries is trimmed to the pieces of the body in it (`Trimmed`) is shown
in `Stencil.Proofs.Markup.KeptRange`.
-/

namespace Stencil.Markup

open Stencil.Text

/-- What is kept of a body, as byte offsets into the source. -/
structure KeptRange where
  /-- Where blocks are looked for. -/
  start : Nat
  stop : Nat
  /-- Where the final line terminator stands, if spaces in front of it are dropped. -/
  terminator : Option (Nat × Nat)
deriving DecidableEq

namespace KeptRange

/-- The byte offset behind the lead of a body that begins at `start`. -/
def leadStop? (start : Nat) (body : List Char) : Option Nat :=
  let leading := utf8Length body - utf8Length (body.dropWhile (· = ' '))
  (slice? leading (utf8Length body) body).map fun rest =>
    if rest.head? = some '\n' then start + leading + 1 else start

/-- The number of bytes of the line terminator that a text ends in. -/
def terminatorLength (cs : List Char) : Nat :=
  if ['\r', '\n'].isSuffixOf cs then 2
  else if ['\n'].isSuffixOf cs || ['\r'].isSuffixOf cs then 1
  else 0

/-- What is kept of the text `rest` that stands behind the lead, from `first` up to `stop`. -/
def ofRest? (first stop : Nat) (rest : List Char) : Option KeptRange :=
  (slice? 0 (utf8Length rest - terminatorLength rest) rest).map fun before =>
    let contentStop := first + utf8Length (before.reverse.dropWhile (· = ' ')).reverse
    if terminatorLength rest = 0 then ⟨first, contentStop, none⟩
    else if contentStop < first + utf8Length before then
      ⟨first, contentStop, some (first + utf8Length before, stop)⟩
    else ⟨first, stop, none⟩

/-- What trimming keeps of the body between two byte offsets. -/
def trim? (source : List Char) (start stop : Nat) : Option KeptRange :=
  (slice? start stop source).bind fun body =>
    (leadStop? start body).bind fun first =>
      (slice? first stop source).bind fun rest => ofRest? first stop rest

end KeptRange

/-- What the options keep of the body between two byte offsets. -/
def ParseOptions.keptRange? (o : ParseOptions) (source : List Char) (start stop : Nat) :
    Option KeptRange :=
  if o.trimBodies then KeptRange.trim? source start stop else some ⟨start, stop, none⟩

/-- The raw body and the blocks of the body between two byte offsets. Its container begins at
`place`, inside `depth` others. -/
def readBody? (o : ParseOptions) (source : List Char) (depth : Nat) (place : Location)
    (start stop : Nat) : Option (Except MarkupError (String × List Block)) :=
  if depth + 1 > o.maxDepth then some (.error (.depthExceeded o.maxDepth place))
  else
    (o.keptRange? source start stop).bind fun kept =>
      match parseRange o source (depth + 1) kept.start kept.stop with
      | .error e => some (.error e)
      | .ok body =>
        (slice? kept.start kept.stop source).bind fun main =>
          match kept.terminator with
          | none => some (.ok (String.ofList main, body))
          | some (first, last) =>
            (slice? first last source).map fun tail =>
              .ok (String.ofList (main ++ tail),
                body ++ [.text (Location.ofOffset source first) (String.ofList tail)])

end Stencil.Markup
