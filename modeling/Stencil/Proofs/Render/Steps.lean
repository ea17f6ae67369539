import Stencil.Render

/-!
# Steps of rendering

Rendering a tree is put together from a few kinds of steps. `Congruence` lists them: a relation
between steps that each kind respects holds of the rendering of every tree
(`Congruence.renderBlocks`).

* Every rendering puts context and chain back (`frames_including`).
* How often the chain may still grow need not be counted: `including` renders the blocks of a
  template with itself (`run_including`).
-/

namespace Stencil.Render

open Markup (Block Attributes)

/-! ## Running a step -/

section

variable {α β : Type} {s : State}

@[simp] theorem run_throw (e : Error) (s : State) :
    run (throw e : Render α) s = (.error e, s) := rfl

@[simp] theorem run_lift (r : Except Error α) (s : State) :
    run (liftM r : Render α) s = (r, s) := rfl

/-- The outcome of a step that goes on with `f`. -/
theorem run_bind (x : Render α) (f : α → Render β) (s : State) :
    run (x >>= f) s =
      match run x s with
      | (.ok a, s') => run (f a) s'
      | (.error e, s') => (.error e, s') := by
  show (ExceptT.bindCont f (run x s).1 : StateM State (Except Error β)) (run x s).2 = _
  rcases run x s with ⟨_ | _, _⟩ <;> rfl

theorem run_bind_ok {x : Render α} {f : α → Render β} {s s' : State} {a : α}
    (h : run x s = (.ok a, s')) : run (x >>= f) s = run (f a) s' := by
  rw [run_bind, h]

theorem run_bind_error {x : Render α} {f : α → Render β} {s s' : State} {e : Error}
    (h : run x s = (.error e, s')) : run (x >>= f) s = (.error e, s') := by
  rw [run_bind, h]

/-- The state with one more scope. -/
def State.push (bindings : Fields Value) (s : State) : State :=
  { s with context := s.context.push bindings }

/-- The state without its innermost scope. -/
def State.pop (s : State) : State := { s with context := s.context.pop }

/-- The state with a context without bindings. -/
def State.detach (s : State) : State := { s with context := Context.empty }

theorem run_withScope (bindings : Fields Value) (x : Render α) (s : State) :
    run (withScope bindings x) s =
      ((run x (s.push bindings)).1, (run x (s.push bindings)).2.pop) := rfl

theorem run_withInclusion (name : String) (x : Render α) (s : State) :
    run (withInclusion name x) s =
      ((run x { s with chain := name :: s.chain }).1,
        { (run x { s with chain := name :: s.chain }).2 with
          chain := (run x { s with chain := name :: s.chain }).2.chain.tail }) := rfl

theorem run_detached (x : Render α) (s : State) :
    run (detached x) s =
      ((run x s.detach).1,
        { (run x s.detach).2 with context := s.context, chain := s.chain }) := rfl

/-- The second state with the context and the chain of the first one. -/
def State.reattach (s s' : State) : State := { s' with context := s.context, chain := s.chain }

section

variable {holder : Holder} {place : Place} {x : Render String} {s' : State} {text : String}

theorem run_static_resolved (h : s.resolved holder place = some text) :
    run (static holder place x) s = (.ok text, s) := by
  rw [run, static, h]

theorem run_static_error {e : Error} (h : s.resolved holder place = none)
    (hx : run x s.detach = (.error e, s')) :
    run (static holder place x) s = (.error e, s.reattach s') := by
  have hd : run (detached x) s = (.error e, s.reattach s') := by
    rw [run_detached, hx]
    rfl
  show static holder place x s = _
  rw [static, h, hd]

theorem run_static_ok (h : s.resolved holder place = none)
    (hx : run x s.detach = (.ok text, s')) :
    run (static holder place x) s =
      (.ok ((((s.reattach s').keep holder place text).resolved holder place).getD text),
        (s.reattach s').keep holder place text) := by
  have hd : run (detached x) s = (.ok text, s.reattach s') := by
    rw [run_detached, hx]
    rfl
  show static holder place x s = _
  rw [static, h, hd]

end

end

/-! ## Relations that rendering respects -/

/-- A relation between steps that holds of the inclusions `enter` and `enter'` and is kept by all
that rendering puts around them. -/
structure Congruence (R : {α : Type} → Render α → Render α → Prop) (holder : Holder)
    (enter enter' : String → Attributes → Render String) : Prop where
  pure : ∀ {α : Type} (a : α), R (pure a) (pure a)
  lift : ∀ {α : Type} (r : Except Error α), R (liftM r) (liftM r)
  bind : ∀ {α β : Type} {x y : Render α} {f g : α → Render β}, R x y → (∀ a, R (f a) (g a)) →
    R (x >>= f) (y >>= g)
  evaluate : ∀ source, R (evaluate source) (evaluate source)
  withScope : ∀ {x y : Render String} (bindings : Fields Value), R x y →
    R (withScope bindings x) (withScope bindings y)
  static : ∀ {x y : Render String} (place : Place), R x y →
    R (static holder place x) (static holder place y)
  enter : ∀ resource attributes, R (enter resource attributes) (enter' resource attributes)

namespace Congruence

variable {R : {α : Type} → Render α → Render α → Prop} {holder : Holder}
  {enter enter' : String → Attributes → Render String} (hR : Congruence R holder enter enter')

include hR

theorem loop (variableName : String) {x y : Render String} (h : R x y) (items : List Value) :
    R (loop variableName x items) (loop variableName y items) := by
  induction items with
  | nil => exact hR.pure ""
  | cons item items ih =>
    exact hR.bind (hR.withScope _ h) fun text => hR.bind ih fun rest => hR.pure (text ++ rest)

mutual

theorem renderBlock (block : Block) (place : Place) :
    R (renderBlock enter holder place block) (renderBlock enter' holder place block) := by
  match block with
  | .text _ content => exact hR.pure content
  | .inline _ expression =>
    exact hR.bind (hR.evaluate expression) fun value => hR.pure value.display
  | .loop _ variableName collection _ _ body =>
    refine hR.bind (hR.evaluate collection) fun value => hR.bind (hR.lift _) fun items => ?_
    exact hR.loop variableName (renderBlocks body place 0) items
  | .cond _ condition _ _ body =>
    refine hR.bind (hR.evaluate condition) fun value => hR.bind (hR.lift _) fun b => ?_
    cases b with
    | true => exact renderBlocks body place 0
    | false => exact hR.pure ""
  | .static _ _ body => exact hR.static place (renderBlocks body place 0)
  | .inclusion _ resource attributes => exact hR.enter resource attributes

theorem renderBlocks (blocks : List Block) (place : Place) (index : Nat) :
    R (renderBlocks enter holder place index blocks)
      (renderBlocks enter' holder place index blocks) := by
  match blocks with
  | [] => exact hR.pure ""
  | block :: blocks =>
    refine hR.bind (renderBlock block (index :: place)) fun text => ?_
    exact hR.bind (renderBlocks blocks place (index + 1)) fun rest => hR.pure (text ++ rest)

end

end Congruence

section

variable {R : {α : Type} → Render α → Render α → Prop} {settings : Settings}
  (hR : Congruence R .own (including settings) (including settings))

include hR

mutual

theorem Congruence.bindBlock (block : Block) (place : Place) :
    R (Render.bindBlock settings place block) (Render.bindBlock settings place block) := by
  match block with
  | .static _ _ body =>
    exact hR.bind (hR.static place (hR.renderBlocks body place 0)) fun _ => hR.pure ()
  | .loop _ _ _ _ _ body => exact bindBlocks body place 0
  | .cond _ _ _ _ body => exact bindBlocks body place 0
  | .text _ _ => exact hR.pure ()
  | .inline _ _ => exact hR.pure ()
  | .inclusion _ _ _ => exact hR.pure ()

theorem Congruence.bindBlocks (blocks : List Block) (place : Place) (index : Nat) :
    R (Render.bindBlocks settings place index blocks)
      (Render.bindBlocks settings place index blocks) := by
  match blocks with
  | [] => exact hR.pure ()
  | block :: blocks =>
    exact hR.bind (bindBlock block (index :: place)) fun _ =>
      bindBlocks blocks place (index + 1)

end

end

/-! ## Context and chain are put back -/

/-- A step leaves context and chain as they were, whatever its result. -/
def Frames {α : Type} (x : Render α) : Prop :=
  ∀ s, (run x s).2.context = s.context ∧ (run x s).2.chain = s.chain

theorem Frames.context_eq {α : Type} {x : Render α} (hx : Frames x) {s s' : State}
    {r : Except Error α} (h : run x s = (r, s')) : s'.context = s.context := by
  have hc := (hx s).1
  rwa [h] at hc

theorem Frames.chain_eq {α : Type} {x : Render α} (hx : Frames x) {s s' : State}
    {r : Except Error α} (h : run x s = (r, s')) : s'.chain = s.chain := by
  have hc := (hx s).2
  rwa [h] at hc

theorem frames_bind {α β : Type} {x : Render α} {f : α → Render β} (hx : Frames x)
    (hf : ∀ a, Frames (f a)) : Frames (x >>= f) := by
  intro s
  rw [run_bind]
  rcases hr : run x s with ⟨e | a, s'⟩
  · exact ⟨hx.context_eq hr, hx.chain_eq hr⟩
  · obtain ⟨hc, hn⟩ := hf a s'
    exact ⟨hc.trans (hx.context_eq hr), hn.trans (hx.chain_eq hr)⟩

theorem frames_evaluate (source : String) : Frames (evaluate source) := fun _ => ⟨rfl, rfl⟩

theorem frames_evaluateBindings (bindings : List (String × String)) :
    Frames (evaluateBindings bindings) := by
  induction bindings with
  | nil => exact fun _ => ⟨rfl, rfl⟩
  | cons binding bindings ih =>
    refine frames_bind (frames_evaluate binding.2) fun value => frames_bind ih fun values => ?_
    exact fun _ => ⟨rfl, rfl⟩

theorem frames_withScope {α : Type} {x : Render α} (bindings : Fields Value) (h : Frames x) :
    Frames (withScope bindings x) := by
  intro s
  obtain ⟨hc, hn⟩ := h (s.push bindings)
  rw [run_withScope]
  exact ⟨congrArg Context.pop hc, hn⟩

theorem frames_withInclusion {α : Type} {x : Render α} (name : String) (h : Frames x) :
    Frames (withInclusion name x) := by
  intro s
  obtain ⟨hc, hn⟩ := h { s with chain := name :: s.chain }
  rw [run_withInclusion]
  exact ⟨hc, congrArg List.tail hn⟩

theorem State.keep_frame (s : State) (holder : Holder) (place : Place) (text : String) :
    (s.keep holder place text).context = s.context ∧
      (s.keep holder place text).chain = s.chain := by
  cases holder <;> exact ⟨rfl, rfl⟩

/-- A static block is rendered apart, so that its body need not put anything back. -/
theorem frames_static (holder : Holder) (place : Place) (x : Render String) :
    Frames (static holder place x) := by
  intro s
  have hd : Frames (detached x) := fun _ => ⟨rfl, rfl⟩
  rw [run, static]
  split
  · exact ⟨rfl, rfl⟩
  · split
    · rename_i text s' h
      obtain ⟨hc, hn⟩ := State.keep_frame s' holder place text
      exact ⟨hc.trans (hd.context_eq h), hn.trans (hd.chain_eq h)⟩
    · rename_i e s' h
      exact ⟨hd.context_eq h, hd.chain_eq h⟩

theorem frames_checkCycle (name : String) : Frames (checkCycle name) := by
  intro s
  rw [run, checkCycle]
  split <;> exact ⟨rfl, rfl⟩

theorem frames_load (settings : Settings) (name : String) : Frames (load settings name) := by
  intro s
  rw [run, load]
  split <;> exact ⟨rfl, rfl⟩

theorem congruence_frames (holder : Holder) {enter : String → Attributes → Render String}
    (h : ∀ resource attributes, Frames (enter resource attributes)) :
    Congruence (fun x _ => Frames x) holder enter enter where
  pure _ := fun _ => ⟨rfl, rfl⟩
  lift _ := fun _ => ⟨rfl, rfl⟩
  bind := frames_bind
  evaluate := frames_evaluate
  withScope := frames_withScope
  static place _ := frames_static holder place _
  enter := h

theorem frames_enter (settings : Settings) (remaining : Nat) (resource : String)
    (attributes : Attributes) : Frames (enter settings remaining resource attributes) := by
  induction remaining generalizing resource attributes with
  | zero =>
    exact frames_bind (frames_checkCycle _) fun _ => fun _ => ⟨rfl, rfl⟩
  | succ remaining ih =>
    refine frames_bind (frames_checkCycle _) fun _ => frames_bind (frames_load settings _) fun p =>
      frames_bind (frames_evaluateBindings _) fun bindings => ?_
    refine frames_withInclusion _ (frames_withScope bindings ?_)
    exact (congruence_frames (.stored p.1) ih).renderBlocks p.2.blocks [] 0

theorem frames_including (settings : Settings) (resource : String) (attributes : Attributes) :
    Frames (including settings resource attributes) :=
  fun s => frames_enter settings _ resource attributes s

/-- The rendering of a tree puts context and chain back. -/
theorem frames_renderBlocks (settings : Settings) (holder : Holder) (place : Place) (index : Nat)
    (blocks : List Block) :
    Frames (renderBlocks (including settings) holder place index blocks) :=
  (congruence_frames holder (frames_including settings)).renderBlocks blocks place index

/-! ## Inclusions without a count -/

/-- Both steps put context and chain back, and from a given chain they do the same. -/
def AgreeFrom {α : Type} (chain : List String) (x y : Render α) : Prop :=
  Frames x ∧ ∀ s, s.chain = chain → run x s = run y s

theorem congruence_agreeFrom (chain : List String) (holder : Holder)
    {enter enter' : String → Attributes → Render String}
    (h : ∀ resource attributes, AgreeFrom chain (enter resource attributes)
      (enter' resource attributes)) :
    Congruence (AgreeFrom chain) holder enter enter' where
  pure _ := ⟨fun _ => ⟨rfl, rfl⟩, fun _ _ => rfl⟩
  lift _ := ⟨fun _ => ⟨rfl, rfl⟩, fun _ _ => rfl⟩
  bind := by
    intro α β x y f g hx hf
    refine ⟨frames_bind hx.1 fun a => (hf a).1, ?_⟩
    intro s hs
    rw [run_bind, run_bind, ← hx.2 s hs]
    rcases hr : run x s with ⟨e | a, s'⟩
    · rfl
    · exact (hf a).2 s' ((hx.1.chain_eq hr).trans hs)
  evaluate source := ⟨frames_evaluate source, fun _ _ => rfl⟩
  withScope := by
    intro x y bindings hx
    refine ⟨frames_withScope bindings hx.1, ?_⟩
    intro s hs
    rw [run_withScope, run_withScope, hx.2 (s.push bindings) hs]
  static := by
    intro x y place hx
    refine ⟨frames_static holder place x, ?_⟩
    intro s hs
    have hd : run (detached x) s = run (detached y) s := by
      rw [run_detached, run_detached, hx.2 s.detach hs]
    rw [run, run, static, static, hd]
  enter := h

theorem agreeFrom_bind {α β : Type} {chain : List String} {x : Render α} {f g : α → Render β}
    (hx : Frames x) (hf : ∀ a, AgreeFrom chain (f a) (g a)) :
    AgreeFrom chain (x >>= f) (x >>= g) := by
  refine ⟨frames_bind hx fun a => (hf a).1, ?_⟩
  intro s hs
  rw [run_bind, run_bind]
  rcases hr : run x s with ⟨e | a, s'⟩
  · rfl
  · exact (hf a).2 s' ((hx.chain_eq hr).trans hs)

theorem agreeFrom_withInclusion {α : Type} {chain : List String} {name : String} {x y : Render α}
    (h : AgreeFrom (name :: chain) x y) :
    AgreeFrom chain (withInclusion name x) (withInclusion name y) := by
  refine ⟨frames_withInclusion name h.1, ?_⟩
  intro s hs
  rw [run_withInclusion, run_withInclusion, hs, h.2 _ rfl]

theorem agreeFrom_enter (settings : Settings) {chain : List String} {remaining : Nat}
    (h : settings.config.maxInclusionDepth - chain.length = remaining) (resource : String)
    (attributes : Attributes) :
    AgreeFrom chain (enter settings remaining resource attributes)
      (including settings resource attributes) := by
  refine ⟨frames_enter settings remaining resource attributes, ?_⟩
  intro s hs
  subst h hs
  rfl

/-- What the inclusion of a template does after its checks. -/
def includeTemplate (settings : Settings) (name : String) (attributes : Attributes) :
    Render String := do
  let (key, template) ← load settings name
  let bindings ← evaluateBindings (Block.bindings attributes)
  withInclusion name <| withScope bindings <|
    renderBlocks (including settings) (.stored key) [] 0 template.blocks

theorem agreeFrom_enter_succ (settings : Settings) {chain : List String} {remaining : Nat}
    (h : settings.config.maxInclusionDepth - chain.length = remaining + 1) (resource : String)
    (attributes : Attributes) :
    AgreeFrom chain (enter settings (remaining + 1) resource attributes)
      (do
        checkCycle (canonicalName settings resource)
        includeTemplate settings (canonicalName settings resource) attributes) := by
  refine agreeFrom_bind (frames_checkCycle _) fun _ => agreeFrom_bind (frames_load settings _)
    fun p => agreeFrom_bind (frames_evaluateBindings _) fun bindings => ?_
  have hr : settings.config.maxInclusionDepth -
      (canonicalName settings resource :: chain).length = remaining := by
    rw [List.length_cons]
    omega
  have hR := congruence_agreeFrom _ (.stored p.1) (agreeFrom_enter settings hr)
  exact agreeFrom_withInclusion (hR.withScope bindings (hR.renderBlocks p.2.blocks [] 0))

section

variable {settings : Settings} {resource : String} {attributes : Attributes} {s : State}

theorem run_checkCycle_of_mem {name : String} (h : name ∈ s.chain) :
    run (checkCycle name) s = (.error (.cyclicInclusion name (name :: s.chain).reverse), s) :=
  if_pos h

theorem run_checkCycle_of_not_mem {name : String} (h : name ∉ s.chain) :
    run (checkCycle name) s = (.ok (), s) :=
  if_neg h

/-- A template that is being rendered is not included. -/
theorem run_including_of_mem (h : canonicalName settings resource ∈ s.chain) :
    run (including settings resource attributes) s =
      (.error (.cyclicInclusion (canonicalName settings resource)
        (canonicalName settings resource :: s.chain).reverse), s) := by
  cases hr : settings.config.maxInclusionDepth - s.chain.length with
  | zero =>
    rw [← (agreeFrom_enter settings hr resource attributes).2 s rfl, enter,
      run_bind_error (run_checkCycle_of_mem h)]
  | succ remaining =>
    rw [← (agreeFrom_enter settings hr resource attributes).2 s rfl, enter,
      run_bind_error (run_checkCycle_of_mem h)]

/-- No template is included where the chain must not grow. -/
theorem run_including_of_le (h : canonicalName settings resource ∉ s.chain)
    (hd : settings.config.maxInclusionDepth ≤ s.chain.length) :
    run (including settings resource attributes) s =
      (.error (.inclusionDepthExceeded settings.config.maxInclusionDepth), s) := by
  have hr := Nat.sub_eq_zero_of_le hd
  rw [← (agreeFrom_enter settings hr resource attributes).2 s rfl, enter,
    run_bind_ok (run_checkCycle_of_not_mem h), run_throw]

/-- Otherwise the blocks of the template are rendered as those around the inclusion. -/
theorem run_including_of_lt (h : canonicalName settings resource ∉ s.chain)
    (hd : s.chain.length < settings.config.maxInclusionDepth) :
    run (including settings resource attributes) s =
      run (includeTemplate settings (canonicalName settings resource) attributes) s := by
  obtain ⟨remaining, hr⟩ : ∃ remaining,
      settings.config.maxInclusionDepth - s.chain.length = remaining + 1 :=
    ⟨settings.config.maxInclusionDepth - s.chain.length - 1, by omega⟩
  rw [← (agreeFrom_enter settings hr resource attributes).2 s rfl,
    (agreeFrom_enter_succ settings hr resource attributes).2 s rfl,
    run_bind_ok (run_checkCycle_of_not_mem h)]

end

end Stencil.Render
