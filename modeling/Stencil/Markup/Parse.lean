import Stencil.Markup.Block
import Stencil.Markup.Identifier
import Stencil.Markup.Extent
import Stencil.Markup.Trim

/-!
# From text to blocks

`parseBlocks` reads the blocks of a text construct by construct. What stands between two constructs
is a text block, and the body of a container is read in the same way one level deeper. Body and rest
of a construct are shorter than the text it was found in, so the reading ends; the limit on the
depth turns deep nesting into an error.
-/

namespace Stencil.Markup

open Stencil.Text

/-- How templates are read. -/
structure ParseOptions where
  /-- How deep containers may be nested. -/
  maxDepth : Nat := 64
  /-- Whether bodies are trimmed. -/
  trimBodies : Bool := false
deriving Repr, DecidableEq

/-- A text block, or nothing for an empty text. -/
def textBlock (here : Location) (cs : List Char) : List Block :=
  if cs.isEmpty then [] else [.text here (String.ofList cs)]

/-- The value of an attribute that a tag has to have. -/
def required (k : Construct) (tag : Tag) (place : Location) (name : String) :
    Except MarkupError String :=
  match Fields.get? name k.attributes with
  | some value => .ok value
  | none => .error (.missingAttribute name tag place)

/-- What a container says before its body. -/
inductive Header where
  | loop (variableName collection : String)
  | cond (condition : String)
  | static
deriving Repr, DecidableEq

/-- The header of a container. -/
def readHeader (k : Construct) (tag : Tag) (place : Location) : Except MarkupError Header :=
  match tag with
  | .loop =>
    match required k tag place "var", required k tag place "in" with
    | .error e, _ => .error e
    | _, .error e => .error e
    | .ok variableName, .ok collection =>
      let trimmed := trim variableName.toList
      if isIdentifier trimmed then .ok (.loop (String.ofList trimmed) collection)
      else .error (.malformedTag tag (.badVariable (String.ofList trimmed)) place)
  | .cond => (required k tag place "cond").map .cond
  | _ => .ok .static

/-- The container with a header and a body. -/
def Header.block (h : Header) (place : Location) (attributes : Attributes) (rawBody : String)
    (body : List Block) : Block :=
  match h with
  | loop variableName collection => .loop place variableName collection attributes rawBody body
  | cond condition => .cond place condition attributes rawBody body
  | static => .static place rawBody body

/-- The inclusion that a construct stands for. -/
def readInclusion (k : Construct) (place : Location) : Except MarkupError Block :=
  (required k .inclusion place Block.resourceName).map fun resource =>
    .inclusion place (String.ofList (trim resource.toList)) k.attributes

/-- The cut of a body that the options ask for. -/
def ParseOptions.trimming (o : ParseOptions) (body : List Char) : Trimmed :=
  if o.trimBodies then Trimmed.ofBody body else Trimmed.untouched body

theorem ParseOptions.whole_trimming (o : ParseOptions) (body : List Char) :
    (o.trimming body).whole = body := by
  unfold trimming
  split
  · exact Trimmed.whole_ofBody body
  · exact Trimmed.whole_untouched body

theorem ParseOptions.trimming_of_not_trimBodies {o : ParseOptions} (ho : o.trimBodies = false)
    (body : List Char) : o.trimming body = Trimmed.untouched body := by
  simp [trimming, ho]

theorem Construct.length_after_lt {here : Location} {cs : List Char} {k : Construct}
    (h : next here cs = .ok (some k)) : k.after.length < cs.length := by
  obtain ⟨h, ho⟩ := next_eq h
  have := List.length_pos_iff.2 ho
  rw [h]
  simp only [extent, List.length_append]
  omega

theorem Construct.length_main_lt {here : Location} {cs : List Char} {k : Construct}
    (o : ParseOptions) (h : next here cs = .ok (some k)) :
    (o.trimming k.body).main.length < cs.length := by
  obtain ⟨h, ho⟩ := next_eq h
  have h₁ := List.length_pos_iff.2 ho
  have h₂ := (o.trimming k.body).length_main_le
  rw [o.whole_trimming] at h₂
  rw [h]
  simp only [extent, List.length_append]
  omega

/-- The blocks of the text `cs`, which begins at `here` inside `depth` containers. -/
def parseBlocks (o : ParseOptions) (depth : Nat) (here : Location) (cs : List Char) :
    Except MarkupError (List Block) :=
  match h : Construct.next here cs with
  | .error e => .error e
  | .ok none => .ok (textBlock here cs)
  | .ok (some k) =>
    have := Construct.length_after_lt h
    have := Construct.length_main_lt o h
    let place := k.location here
    let block : Except MarkupError Block :=
      match k.kind with
      | .inline => .ok (.inline place (String.ofList k.body))
      | .tag .inclusion => readInclusion k place
      | .tag tag =>
        match readHeader k tag place with
        | .error e => .error e
        | .ok header =>
          if depth + 1 > o.maxDepth then .error (.depthExceeded o.maxDepth place)
          else
            let cut := o.trimming k.body
            let start := k.bodyLocation here
            (parseBlocks o (depth + 1) (start.after cut.lead) cut.main).map fun body =>
              header.block place k.attributes (String.ofList cut.kept)
                (body ++ textBlock (start.after cut.beforeTail) cut.tail)
    match block with
    | .error e => .error e
    | .ok block =>
      (parseBlocks o depth (k.afterLocation here) k.after).map fun rest =>
        textBlock here k.before ++ block :: rest
termination_by cs.length

/-- The blocks of a template. -/
def parse (o : ParseOptions) (source : String) : Except MarkupError (List Block) :=
  parseBlocks o 0 Location.start source.toList

/-- All constructs of a text in order, each with the place of the text it was found in, up to the
first error. -/
def constructs (here : Location) (cs : List Char) :
    List (Location × Construct) × Option MarkupError :=
  match h : Construct.next here cs with
  | .error e => ([], some e)
  | .ok none => ([], none)
  | .ok (some k) =>
    have := Construct.length_after_lt h
    let rest := constructs (k.afterLocation here) k.after
    ((here, k) :: rest.1, rest.2)
termination_by cs.length

end Stencil.Markup
