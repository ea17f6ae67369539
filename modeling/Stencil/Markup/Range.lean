import Stencil.Markup.Parse

/-!
# Reading a range in place

`parseRange` reads the blocks between two byte offsets of a source without cutting the range out:
all readers get the whole source. The body of a container and the rest behind it are ranges within
the range.
-/

namespace Stencil.Markup

open Stencil.Text

/-- The blocks between two byte offsets of `source`, inside `depth` containers. -/
def parseRange (o : ParseOptions) (source : List Char) (depth start stop : Nat) :
    Except MarkupError (List Block) :=
  match h : nextExtent source start stop with
  | .error e => .error e
  | .ok none => .ok (textBlock (Location.ofOffset source start) (window start stop source))
  | .ok (some s) =>
    have := nextExtent_bounds source h
    let place := Location.ofOffset source s.start
    let k := s.cut source start stop
    let block : Except MarkupError Block :=
      match s.kind with
      | .inline => .ok (.inline place (String.ofList s.content))
      | .tag .inclusion => readInclusion k place
      | .tag tag =>
        match readHeader k tag place with
        | .error e => .error e
        | .ok header =>
          if depth + 1 > o.maxDepth then .error (.depthExceeded o.maxDepth place)
          else
            let cut := o.trimming s.content
            let first := s.bodyStart + utf8Length cut.lead
            let last := first + utf8Length cut.main
            have : utf8Length (o.trimming s.content).main < stop - start := by
              have hlength := (o.trimming s.content).utf8Length_main_le
              rw [o.whole_trimming] at hlength
              omega
            (parseRange o source (depth + 1) first last).map fun body =>
              header.block place s.attributes (String.ofList cut.kept)
                (body ++ textBlock
                  (Location.ofOffset source (s.bodyStart + utf8Length cut.beforeTail)) cut.tail)
    match block with
    | .error e => .error e
    | .ok block =>
      (parseRange o source depth s.stop stop).map fun rest =>
        textBlock (Location.ofOffset source start) (window start s.start source) ++ block :: rest
termination_by stop - start

end Stencil.Markup
