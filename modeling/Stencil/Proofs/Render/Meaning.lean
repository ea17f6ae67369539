import Stencil.Proofs.Render.Points

/-!
# What templates mean without what is kept

`valueOf` evaluates an expression that is read anew, `blocksAt` reads a template anew, and `Yields`
relates the tasks of a stored template to their texts without templates or expressions being kept
and without a chain of inclusions. A task yields at most one text (`Yields.unique`).

`Sound` says that what is kept agrees with this: expressions and templates are those that would be
read, and the text of a static block is one that its body yields, with static blocks of which the
texts are kept as well.
-/

namespace Stencil

open Markup (Block Attributes)

/-! ## Values and templates that are read anew -/

/-- The value of an expression in a context. -/
def valueOf (source : String) (c : Context) : Except Error Value :=
  (Expression.evaluateText source c).map (·.value)

/-- The values of bindings in a context. -/
def valuesOf (c : Context) : List (String × String) → Except Error (Fields Value)
  | [] => .ok []
  | (name, source) :: bindings =>
    match valueOf source c with
    | .error e => .error e
    | .ok value => (valuesOf c bindings).map ((name, value) :: ·)

namespace Settings

variable (settings : Settings)

/-- The name that a template is stored under. -/
def storedName (name : String) : String :=
  match settings.loader with
  | some loader => loader.canonicalName name
  | none => name

/-- The blocks of the template that is stored under a name. -/
def blocksAt (key : String) : Except Error (List Block) :=
  match settings.loader with
  | some loader =>
    ((loader.load key).bind (Store.readTemplate settings.config.parseOptions)).map (·.blocks)
  | none => .error (.resourceNotFound key)

/-- The body at a place of a tree. -/
def bodyIn (root : List Block) : Place → Option (List Block)
  | [] => some root
  | index :: place => (bodyIn root place).bind fun blocks => blocks[index]?.map Block.body

/-- The body at a place of the template that is stored under a name. -/
def bodyAt (key : String) (place : Place) : Option (List Block) :=
  (settings.blocksAt key).toOption.bind fun root => bodyIn root place

end Settings

/-! ## Texts without a store and a chain -/

namespace Render

/-- A task of the template `key` yields a text. Static blocks are rendered in a context without
bindings, and their texts have to be `known` besides. -/
inductive Yields (settings : Settings) (known : String → Place → Option String) :
    String → Context → Task → String → Prop
  | text {key c place l content} :
      Yields settings known key c (.block place (.text l content)) content
  | inline {key c place l expression value} (hv : valueOf expression c = .ok value) :
      Yields settings known key c (.block place (.inline l expression)) value.display
  | loop {key c place l variableName collection attributes raw body value items text}
      (hv : valueOf collection c = .ok value) (hi : elements collection value = .ok items)
      (h : Yields settings known key c (.loop place variableName body items) text) :
      Yields settings known key c
        (.block place (.loop l variableName collection attributes raw body)) text
  | condTrue {key c place l condition attributes raw body value text}
      (hv : valueOf condition c = .ok value) (ht : truth condition value = .ok true)
      (h : Yields settings known key c (.blocks place 0 body) text) :
      Yields settings known key c (.block place (.cond l condition attributes raw body)) text
  | condFalse {key c place l condition attributes raw body value}
      (hv : valueOf condition c = .ok value) (ht : truth condition value = .ok false) :
      Yields settings known key c (.block place (.cond l condition attributes raw body)) ""
  | static {key c place l raw body text} (hk : known key place = some text)
      (h : Yields settings known key Context.empty (.blocks place 0 body) text) :
      Yields settings known key c (.block place (.static l raw body)) text
  | inclusion {key c place l resource attributes blocks bindings text}
      (hs : settings.blocksAt (settings.storedName (canonicalName settings resource)) =
        .ok blocks)
      (hb : valuesOf c (Block.bindings attributes) = .ok bindings)
      (h : Yields settings known (settings.storedName (canonicalName settings resource))
        (c.push bindings) (.blocks [] 0 blocks) text) :
      Yields settings known key c (.block place (.inclusion l resource attributes)) text
  | nil {key c place index} : Yields settings known key c (.blocks place index []) ""
  | cons {key c place index block blocks text rest}
      (h : Yields settings known key c (.block (index :: place) block) text)
      (ht : Yields settings known key c (.blocks place (index + 1) blocks) rest) :
      Yields settings known key c (.blocks place index (block :: blocks)) (text ++ rest)
  | itemsNil {key c place variableName body} :
      Yields settings known key c (.loop place variableName body []) ""
  | itemsCons {key c place variableName body item items text rest}
      (h : Yields settings known key (c.push [(variableName, item)]) (.blocks place 0 body) text)
      (ht : Yields settings known key c (.loop place variableName body items) rest) :
      Yields settings known key c (.loop place variableName body (item :: items)) (text ++ rest)

variable {settings : Settings} {known known' : String → Place → Option String} {key : String}
  {c : Context} {task : Task} {text text' : String}

/-- More known texts do not change what is yielded. -/
theorem Yields.mono (h : Yields settings known key c task text)
    (hk : ∀ key place text, known key place = some text → known' key place = some text) :
    Yields settings known' key c task text := by
  induction h with
  | text => exact .text
  | inline hv => exact .inline hv
  | loop hv hi _ ih => exact .loop hv hi ih
  | condTrue hv ht _ ih => exact .condTrue hv ht ih
  | condFalse hv ht => exact .condFalse hv ht
  | static h _ ih => exact .static (hk _ _ _ h) ih
  | inclusion hs hb _ ih => exact .inclusion hs hb ih
  | nil => exact .nil
  | cons _ _ ih iht => exact .cons ih iht
  | itemsNil => exact .itemsNil
  | itemsCons _ _ ih iht => exact .itemsCons ih iht

/-- The text does not depend on which texts are known. -/
theorem Yields.unique (h : Yields settings known key c task text)
    (h' : Yields settings known' key c task text') : text' = text := by
  induction h generalizing text' with
  | text =>
    cases h'
    rfl
  | inline hv =>
    cases h' with
    | inline hv' =>
      cases hv.symm.trans hv'
      rfl
  | loop hv hi _ ih =>
    cases h' with
    | loop hv' hi' h' =>
      cases hv.symm.trans hv'
      cases hi.symm.trans hi'
      exact ih h'
  | condTrue hv ht _ ih =>
    cases h' with
    | condTrue _ _ h' => exact ih h'
    | condFalse hv' ht' =>
      cases hv.symm.trans hv'
      cases ht.symm.trans ht'
  | condFalse hv ht =>
    cases h' with
    | condTrue hv' ht' _ =>
      cases hv.symm.trans hv'
      cases ht.symm.trans ht'
    | condFalse => rfl
  | static _ _ ih =>
    cases h' with
    | static _ h' => exact ih h'
  | inclusion hs hb _ ih =>
    cases h' with
    | inclusion hs' hb' h' =>
      cases hs.symm.trans hs'
      cases hb.symm.trans hb'
      exact ih h'
  | nil =>
    cases h'
    rfl
  | cons _ _ ih iht =>
    cases h' with
    | cons h' ht' => rw [ih h', iht ht']
  | itemsNil =>
    cases h'
    rfl
  | itemsCons _ _ ih iht =>
    cases h' with
    | itemsCons h' ht' => rw [ih h', iht ht']

end Render

end Stencil
