import Stencil.Markup.Attributes
import Stencil.Markup.Location
import Stencil.Markup.Tag

/-!
# Blocks

A parsed template is a sequence of blocks in the order in which they are rendered. Loops, conditions
and static blocks own the blocks of their body. Expressions are kept as text.
-/

namespace Stencil.Markup

/-- A block of a template, with the place where it begins. -/
inductive Block where
  /-- Literal text. -/
  | text (location : Location) (content : String)
  /-- The value of an expression. -/
  | inline (location : Location) (expression : String)
  /-- The body once for each element of a collection, which `variable` names in it. -/
  | loop (location : Location) (variableName collection : String) (attributes : Attributes)
      (rawBody : String) (body : List Block)
  /-- The body if a condition holds. -/
  | cond (location : Location) (condition : String) (attributes : Attributes) (rawBody : String)
      (body : List Block)
  /-- A body that does not depend on the data and is rendered once. -/
  | static (location : Location) (rawBody : String) (body : List Block)
  /-- Another template, rendered with some names bound to values. -/
  | inclusion (location : Location) (resource : String) (attributes : Attributes)

namespace Block

/-- The place where a block begins. -/
def location : Block → Location
  | text l _ => l
  | inline l _ => l
  | loop l _ _ _ _ _ => l
  | cond l _ _ _ _ => l
  | static l _ _ => l
  | inclusion l _ _ => l

/-- The blocks of the body of a container. -/
def body : Block → List Block
  | loop _ _ _ _ _ b => b
  | cond _ _ _ _ b => b
  | static _ _ b => b
  | _ => []

/-- The tag of a block that is written as one. -/
def tag? : Block → Option Tag
  | text _ _ => none
  | inline _ _ => none
  | loop _ _ _ _ _ _ => some .loop
  | cond _ _ _ _ _ => some .cond
  | static _ _ _ => some .static
  | inclusion _ _ _ => some .inclusion

/-- The body of a container as it is written. -/
def rawBody : Block → String
  | loop _ _ _ _ raw _ => raw
  | cond _ _ _ raw _ => raw
  | static _ raw _ => raw
  | _ => ""

/-- The attribute that names the template of an inclusion. -/
def resourceName : String := "resource"

/-- The names that an inclusion binds, with their expressions: all its attributes but the one that
names the template. -/
def bindings (attributes : Attributes) : List (String × String) :=
  Fields.without resourceName attributes

mutual

/-- Whether two blocks are the same. -/
def decEq (a b : Block) : Decidable (a = b) :=
  match a with
  | .text l s =>
    match b with
    | .text l' s' => decidable_of_iff (l = l' ∧ s = s') (by simp)
    | .inline .. | .loop .. | .cond .. | .static .. | .inclusion .. => .isFalse nofun
  | .inline l s =>
    match b with
    | .inline l' s' => decidable_of_iff (l = l' ∧ s = s') (by simp)
    | .text .. | .loop .. | .cond .. | .static .. | .inclusion .. => .isFalse nofun
  | .loop l v c as r body =>
    match b with
    | .loop l' v' c' as' r' body' =>
      have := decEqs body body'
      decidable_of_iff (l = l' ∧ v = v' ∧ c = c' ∧ as = as' ∧ r = r' ∧ body = body') (by simp)
    | .text .. | .inline .. | .cond .. | .static .. | .inclusion .. => .isFalse nofun
  | .cond l c as r body =>
    match b with
    | .cond l' c' as' r' body' =>
      have := decEqs body body'
      decidable_of_iff (l = l' ∧ c = c' ∧ as = as' ∧ r = r' ∧ body = body') (by simp)
    | .text .. | .inline .. | .loop .. | .static .. | .inclusion .. => .isFalse nofun
  | .static l r body =>
    match b with
    | .static l' r' body' =>
      have := decEqs body body'
      decidable_of_iff (l = l' ∧ r = r' ∧ body = body') (by simp)
    | .text .. | .inline .. | .loop .. | .cond .. | .inclusion .. => .isFalse nofun
  | .inclusion l r as =>
    match b with
    | .inclusion l' r' as' => decidable_of_iff (l = l' ∧ r = r' ∧ as = as') (by simp)
    | .text .. | .inline .. | .loop .. | .cond .. | .static .. => .isFalse nofun

/-- Whether two sequences of blocks are the same. -/
def decEqs : (as bs : List Block) → Decidable (as = bs)
  | [], [] => .isTrue rfl
  | [], _ :: _ => .isFalse nofun
  | _ :: _, [] => .isFalse nofun
  | a :: as, b :: bs =>
    have := decEq a b
    have := decEqs as bs
    decidable_of_iff (a = b ∧ as = bs) (by simp)

end

instance : DecidableEq Block := decEq

end Block

end Stencil.Markup
