import Stencil.Markup.Parse

/-!
# Printing of block trees

`printBlocks` writes a block tree down as a template: text blocks as they are, inline expressions
between braces, and tags with their attributes in quotes. Of the places and the raw bodies that
blocks carry it makes no use; `placeBlocks` is the tree with the places and raw bodies that its
blocks have in the printed template.

Attributes have no order of their own. They are printed in the order that `arrange` gives them.

`PrintableBlocks` says of a tree that its texts, expressions and attributes cannot be mistaken for
markup. That such a tree is read back from what is printed is shown in
`Stencil.Proofs.Markup.RoundTrip`.
-/

namespace Stencil.Markup

open Stencil.Text

/-- A character of an attribute value as it is written between quotes. -/
def escapeChar (c : Char) : List Char := if c = '\x27' || c = '\\' then ['\\', c] else [c]

/-- An attribute value as it is written between quotes. -/
def escape (cs : List Char) : List Char := cs.flatMap escapeChar

@[simp] theorem escape_nil : escape [] = [] := rfl

@[simp] theorem escape_cons (c : Char) (cs : List Char) :
    escape (c :: cs) = escapeChar c ++ escape cs := rfl

/-- One attribute. -/
def printItem (item : String × String) : List Char :=
  item.1.toList ++ ':' :: '\x27' :: (escape item.2.toList ++ ['\x27'])

/-- The attributes after the first one, each behind a comma. -/
def printMore (items : List (String × String)) : List Char :=
  items.flatMap fun item => ',' :: ' ' :: printItem item

/-- Attributes as they stand in a tag after its name. -/
def printItems : List (String × String) → List Char
  | [] => []
  | item :: items => ' ' :: (printItem item ++ printMore items)

section

variable (arrange : Attributes → List (String × String))

/-- The text between the name and the `>` of an inclusion. -/
def inclusionInner (attributes : Attributes) : List Char :=
  printItems (arrange attributes) ++ ['/']

mutual

/-- The text of a block. -/
def printBlock : Block → List Char
  | .text _ content => content.toList
  | .inline _ expression => '$' :: '{' :: (expression.toList ++ ['}'])
  | .loop _ _ _ attributes _ body =>
    Tag.loop.openTag (printItems (arrange attributes)) ++ printBlocks body ++ Tag.loop.closer
  | .cond _ _ attributes _ body =>
    Tag.cond.openTag (printItems (arrange attributes)) ++ printBlocks body ++ Tag.cond.closer
  | .static _ _ body => Tag.static.openTag [] ++ printBlocks body ++ Tag.static.closer
  | .inclusion _ _ attributes => Tag.inclusion.openTag (inclusionInner arrange attributes)

/-- The text of blocks, one after the other. -/
def printBlocks : List Block → List Char
  | [] => []
  | block :: blocks => printBlock block ++ printBlocks blocks

end

mutual

/-- The block as it stands in the printed template, where it begins at `here`. -/
def placeBlock (here : Location) : Block → Block
  | .text _ content => .text here content
  | .inline _ expression => .inline here expression
  | .loop _ variableName collection attributes _ body =>
    .loop here variableName collection attributes (String.ofList (printBlocks arrange body))
      (placeBlocks (here.after (Tag.loop.openTag (printItems (arrange attributes)))) body)
  | .cond _ condition attributes _ body =>
    .cond here condition attributes (String.ofList (printBlocks arrange body))
      (placeBlocks (here.after (Tag.cond.openTag (printItems (arrange attributes)))) body)
  | .static _ _ body =>
    .static here (String.ofList (printBlocks arrange body))
      (placeBlocks (here.after (Tag.static.openTag [])) body)
  | .inclusion _ resource attributes => .inclusion here resource attributes

/-- The blocks as they stand in the printed template, where they begin at `here`. -/
def placeBlocks (here : Location) : List Block → List Block
  | [] => []
  | block :: blocks =>
    placeBlock here block :: placeBlocks (here.after (printBlock arrange block)) blocks

end

end

/-! ## Trees that can be printed -/

mutual

/-- How deep containers are nested in a block, itself included. -/
def blockNesting : Block → Nat
  | .loop _ _ _ _ _ body => nesting body + 1
  | .cond _ _ _ _ body => nesting body + 1
  | .static _ _ body => nesting body + 1
  | _ => 0

/-- How deep containers are nested in blocks. -/
def nesting : List Block → Nat
  | [] => 0
  | block :: blocks => max (blockNesting block) (nesting blocks)

end

/-- What may begin a tag: a `<` with a slash or the name of a tag directly after it. -/
def tagMarks : List (List Char) := ['<', '/'] :: Tag.all.map Tag.opener

/-- Nothing in a text looks like the beginning of a tag. -/
def TagFree (cs : List Char) : Prop := ∀ w ∈ tagMarks, ¬ w <:+: cs

/-- Attributes with words as their names, each name once, and values without the beginnings of
tags. -/
structure PrintableAttributes (attributes : Attributes) : Prop where
  sorted : Fields.Sorted attributes
  names : ∀ item ∈ attributes, item.1 ≠ "" ∧ ∀ c ∈ item.1.toList, isWord c = true
  values : ∀ item ∈ attributes, TagFree item.2.toList

instance (cs : List Char) : Decidable (TagFree cs) :=
  inferInstanceAs (Decidable (∀ w ∈ tagMarks, ¬ w <:+: cs))

instance (attributes : Attributes) : Decidable (PrintableAttributes attributes) :=
  decidable_of_iff
    (List.Pairwise (fun p q : String × String => p.1 < q.1) attributes ∧
      (∀ item ∈ attributes, item.1 ≠ "" ∧ item.1.toList.all isWord = true) ∧
      ∀ item ∈ attributes, TagFree item.2.toList)
    ⟨fun ⟨hs, hn, hv⟩ => ⟨hs, fun item hi => (hn item hi).imp_right List.all_eq_true.1, hv⟩,
      fun h => ⟨h.sorted, fun item hi => (h.names item hi).imp_right List.all_eq_true.2, h.values⟩⟩

/-- Whether a block is literal text. -/
def isText : Block → Bool
  | .text _ _ => true
  | _ => false

mutual

/-- The block can be told apart from other markup in the printed template. -/
def PrintableBlock : Block → Prop
  | .text _ content =>
    content ≠ "" ∧ ¬ ['$', '{'] <:+: content.toList ∧ TagFree content.toList
  | .inline _ expression =>
    '}' ∉ expression.toList ∧ '\n' ∉ expression.toList ∧
      trim expression.toList = expression.toList ∧ TagFree expression.toList
  | .loop _ variableName collection attributes _ body =>
    PrintableAttributes attributes ∧ Fields.get? "var" attributes = some variableName ∧
      Fields.get? "in" attributes = some collection ∧ isIdentifier variableName.toList = true ∧
      trim variableName.toList = variableName.toList ∧ PrintableBlocks body
  | .cond _ condition attributes _ body =>
    PrintableAttributes attributes ∧ Fields.get? "cond" attributes = some condition ∧
      PrintableBlocks body
  | .static _ _ body => PrintableBlocks body
  | .inclusion _ resource attributes =>
    PrintableAttributes attributes ∧
      Fields.get? Block.resourceName attributes = some resource ∧
      trim resource.toList = resource.toList

/-- All the blocks can be told apart, and no two texts stand next to each other. -/
def PrintableBlocks : List Block → Prop
  | [] => True
  | block :: blocks =>
    PrintableBlock block ∧ (isText block = true → ∀ next ∈ blocks.head?, isText next = false) ∧
      PrintableBlocks blocks

end

mutual

instance decidablePrintableBlock : (block : Block) → Decidable (PrintableBlock block)
  | .text _ content =>
    inferInstanceAs (Decidable (_ ∧ ¬ ['$', '{'] <:+: content.toList ∧ TagFree content.toList))
  | .inline _ expression =>
    inferInstanceAs (Decidable ('}' ∉ expression.toList ∧ '\n' ∉ expression.toList ∧
      trim expression.toList = expression.toList ∧ TagFree expression.toList))
  | .loop _ variableName collection attributes _ body =>
    have := decidablePrintableBlocks body
    inferInstanceAs (Decidable (PrintableAttributes attributes ∧
      Fields.get? "var" attributes = some variableName ∧
      Fields.get? "in" attributes = some collection ∧ isIdentifier variableName.toList = true ∧
      trim variableName.toList = variableName.toList ∧ PrintableBlocks body))
  | .cond _ condition attributes _ body =>
    have := decidablePrintableBlocks body
    inferInstanceAs (Decidable (PrintableAttributes attributes ∧
      Fields.get? "cond" attributes = some condition ∧ PrintableBlocks body))
  | .static _ _ body => decidablePrintableBlocks body
  | .inclusion _ resource attributes =>
    inferInstanceAs (Decidable (PrintableAttributes attributes ∧
      Fields.get? Block.resourceName attributes = some resource ∧
      trim resource.toList = resource.toList))

instance decidablePrintableBlocks : (blocks : List Block) → Decidable (PrintableBlocks blocks)
  | [] => .isTrue trivial
  | block :: blocks =>
    have := decidablePrintableBlock block
    have := decidablePrintableBlocks blocks
    inferInstanceAs (Decidable (PrintableBlock block ∧
      (isText block = true → ∀ next ∈ blocks.head?, isText next = false) ∧
      PrintableBlocks blocks))

end

end Stencil.Markup
