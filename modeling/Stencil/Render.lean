import Stencil.Config
import Stencil.Expr.Eval
import Stencil.Resource.Store

/-!
# Rendering

Blocks are rendered in order, and the text of a tree is the concatenation of the texts of its
blocks. Rendering works on a state that also errors leave behind: the context, the chain of the
inclusions that are being rendered, and what is kept for later renderings, namely templates, parsed
expressions and the texts of static blocks.

* `renderBlocks` follows a tree and leaves inclusions to its argument `enter`;
* `enter` renders an included template, as long as the chain may grow. The number of inclusions that
  the chain may still take is the measure of that recursion.

Scopes and chain are put back whatever the outcome (`withScope`, `withInclusion`, `detached`).
-/

namespace Stencil

open Markup (Block Attributes)

/-- What rendering depends on besides the state. -/
structure Settings where
  config : Config := {}
  /-- Where included templates come from, if there are any. -/
  loader : Option Loader := none

namespace Render

/-- The state of a rendering. -/
structure State where
  context : Context
  /-- The canonical names of the inclusions that are being rendered, the innermost one first. -/
  chain : List String := []
  /-- The texts of static blocks in the tree that the rendering began with. -/
  cells : Cells := []
  store : Store := {}
  expressions : Expression.Cache := []

end Render

/-- A step of rendering: it has a result or an error, and changes the state in both cases. -/
abbrev Render (α : Type) := ExceptT Error (StateM Render.State) α

/-- Which tree a block belongs to: the one that the rendering began with, or a stored template. -/
inductive Holder where
  | own
  | stored (name : String)
deriving Repr, DecidableEq

namespace Render

/-- Runs a step and says what becomes of the state. -/
def run {α : Type} (step : Render α) (s : State) : Except Error α × State := step s

/-! ## Steps that put the state back -/

/-- Renders with one more scope. -/
def withScope {α : Type} (bindings : Fields Value) (body : Render α) : Render α := fun s =>
  let (result, s') := run body { s with context := s.context.push bindings }
  (result, { s' with context := s'.context.pop })

/-- Renders inside the inclusion of a template. -/
def withInclusion {α : Type} (name : String) (body : Render α) : Render α := fun s =>
  let (result, s') := run body { s with chain := name :: s.chain }
  (result, { s' with chain := s'.chain.tail })

/-- Renders in a context without bindings, apart from the rendering around it. -/
def detached {α : Type} (body : Render α) : Render α := fun s =>
  let (result, s') := run body { s with context := Context.empty }
  (result, { s' with context := s.context, chain := s.chain })

/-! ## Expressions -/

/-- The value of an expression in the current context. -/
def evaluate (source : String) : Render Value := fun s =>
  let (result, cache) := s.expressions.evaluate source s.context
  (result.map (·.value), { s with expressions := cache })

/-- The values that an inclusion binds, in the order of the names. -/
def evaluateBindings : List (String × String) → Render (Fields Value)
  | [] => pure []
  | (name, source) :: bindings => do
    let value ← evaluate source
    let values ← evaluateBindings bindings
    return (name, value) :: values

/-! ## Static blocks -/

/-- The text of a static block, if it is known. -/
def State.resolved (s : State) (holder : Holder) (place : Place) : Option String :=
  match holder with
  | .own => s.cells.get? place
  | .stored name => s.store.resolved name place

/-- The state with the text of a static block, unless it has one. -/
def State.keep (s : State) (holder : Holder) (place : Place) (text : String) : State :=
  match holder with
  | .own => { s with cells := s.cells.keep place text }
  | .stored name => { s with store := s.store.keep name place text }

/-- The text of a static block: the known one, or that of its body, which is known from then on. -/
def static (holder : Holder) (place : Place) (body : Render String) : Render String := fun s =>
  match s.resolved holder place with
  | some text => (.ok text, s)
  | none =>
    match run (detached body) s with
    | (.ok text, s') =>
      let s' := s'.keep holder place text
      (.ok ((s'.resolved holder place).getD text), s')
    | (.error e, s') => (.error e, s')

/-! ## Blocks -/

/-- The texts of a body for each element of a collection, one after the other. -/
def loop (variableName : String) (body : Render String) : List Value → Render String
  | [] => pure ""
  | item :: items => do
    let text ← withScope [(variableName, item)] body
    let rest ← loop variableName body items
    return text ++ rest

/-- The elements of a collection. -/
def elements (source : String) : Value → Except Error (List Value)
  | .array items => .ok items
  | v => .error (.typeMismatch "for" (.one v.type) source)

/-- The truth value of a condition. -/
def truth (source : String) : Value → Except Error Bool
  | .bool b => .ok b
  | v => .error (.typeMismatch "if" (.one v.type) source)

mutual

/-- The text of the block at a place of a tree. -/
def renderBlock (enter : String → Attributes → Render String) (holder : Holder) (place : Place) :
    Block → Render String
  | .text _ content => pure content
  | .inline _ expression => do
    let value ← evaluate expression
    return value.display
  | .loop _ variableName collection _ _ body => do
    let value ← evaluate collection
    let items ← elements collection value
    loop variableName (renderBlocks enter holder place 0 body) items
  | .cond _ condition _ _ body => do
    let value ← evaluate condition
    if ← truth condition value then renderBlocks enter holder place 0 body else pure ""
  | .static _ _ body => static holder place (renderBlocks enter holder place 0 body)
  | .inclusion _ resource attributes => enter resource attributes

/-- The text of the blocks at a place of a tree, from the index `index` on. -/
def renderBlocks (enter : String → Attributes → Render String) (holder : Holder) (place : Place)
    (index : Nat) : List Block → Render String
  | [] => pure ""
  | block :: blocks => do
    let text ← renderBlock enter holder (index :: place) block
    let rest ← renderBlocks enter holder place (index + 1) blocks
    return text ++ rest

end

/-! ## Inclusions -/

/-- The canonical name of a template. -/
def canonicalName (settings : Settings) (name : String) : String :=
  match settings.loader with
  | some loader => loader.canonicalName name
  | none => stripRoot name

/-- The template of an inclusion and the name that it is stored under. -/
def load (settings : Settings) (name : String) : Render (String × Template) := fun s =>
  match settings.loader with
  | none => (.error (.resourceNotFound name), s)
  | some loader =>
    let (result, store) := s.store.load loader settings.config.parseOptions name
    (result, { s with store := store })

/-- Refuses an inclusion of a template that is being rendered. -/
def checkCycle (name : String) : Render Unit := fun s =>
  if name ∈ s.chain then (.error (.cyclicInclusion name (name :: s.chain).reverse), s)
  else (.ok (), s)

/-- The text of an inclusion, where the chain may still grow by `remaining` names. -/
def enter (settings : Settings) : Nat → String → Attributes → Render String
  | 0, resource, _ => do
    checkCycle (canonicalName settings resource)
    throw (.inclusionDepthExceeded settings.config.maxInclusionDepth)
  | remaining + 1, resource, attributes => do
    let name := canonicalName settings resource
    checkCycle name
    let (key, template) ← load settings name
    let bindings ← evaluateBindings (Block.bindings attributes)
    withInclusion name <| withScope bindings <|
      renderBlocks (enter settings remaining) (.stored key) [] 0 template.blocks

/-- Renders inclusions as long as the current chain allows. -/
def including (settings : Settings) (resource : String) (attributes : Attributes) :
    Render String := fun s =>
  enter settings (settings.config.maxInclusionDepth - s.chain.length) resource attributes s

/-- The text of a whole tree. -/
def tree (settings : Settings) (blocks : List Block) : Render String :=
  renderBlocks (including settings) .own [] 0 blocks

mutual

/-- Renders the static blocks in a block, except those inside of other static blocks. -/
def bindBlock (settings : Settings) (place : Place) : Block → Render Unit
  | .static _ _ body => do
    let _ ← static .own place (renderBlocks (including settings) .own place 0 body)
    return ()
  | .loop _ _ _ _ _ body => bindBlocks settings place 0 body
  | .cond _ _ _ _ body => bindBlocks settings place 0 body
  | _ => pure ()

/-- Renders the static blocks in blocks, from the index `index` on. -/
def bindBlocks (settings : Settings) (place : Place) (index : Nat) : List Block → Render Unit
  | [] => pure ()
  | block :: blocks => do
    bindBlock settings (index :: place) block
    bindBlocks settings place (index + 1) blocks

end

end Render

end Stencil
