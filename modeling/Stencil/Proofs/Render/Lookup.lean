import Stencil.Engine
import Stencil.Proofs.Render.Steps

/-!
# Rendering looks names up

A context holds bindings of the root and of any number of local scopes, and the same names can be
bound in many such ways. A rendering sees nothing of this but the values of names: in two contexts
that give every name the same value it has the same result and leaves the same behind
(`render_of_lookup`).

Contexts of different shapes are pushed on and popped from alike. A scope that is taken off again
leaves what was there before it, which `LooksUp` therefore says of a step as well (`Frames`).
-/

namespace Stencil

open Markup (Block Attributes)

/-- Both contexts give every name the same value. -/
def Context.Agrees (c c' : Context) : Prop := ∀ name, c.lookup name = c'.lookup name

theorem Context.Agrees.push {c c' : Context} (h : c.Agrees c') (bindings : Fields Value) :
    (c.push bindings).Agrees (c'.push bindings) := by
  intro name
  rw [lookup_push, lookup_push, h name]

/-! ## Expressions -/

theorem Context.Agrees.resolve {c c' : Context} (h : c.Agrees c') (source : String)
    (segments : List String) : c.resolve source segments = c'.resolve source segments := by
  cases segments with
  | nil => rfl
  | cons name names => rw [Context.resolve, Context.resolve, h name]

mutual

theorem Expr.eval_of_agrees {c c' : Context} (h : c.Agrees c') (source : String) (e : Expr) :
    e.eval source c = e.eval source c' := by
  match e with
  | .literal value => rfl
  | .path segments => rw [eval, eval, h.resolve]
  | .array items => rw [eval, eval, evalItems_of_agrees h]
  | .unary op e => rw [eval, eval, eval_of_agrees h source e]
  | .binary op l r => rw [eval, eval, eval_of_agrees h source l, eval_of_agrees h source r]

theorem Expr.evalItems_of_agrees {c c' : Context} (h : c.Agrees c') (source : String)
    (items : List Expr) : evalItems source c items = evalItems source c' items := by
  match items with
  | [] => rfl
  | e :: es => rw [evalItems, evalItems, eval_of_agrees h source e, evalItems_of_agrees h source es]

end

theorem Expression.Cache.evaluate_of_agrees {c c' : Context} (h : c.Agrees c') (cache : Cache)
    (source : String) : cache.evaluate source c = cache.evaluate source c' := by
  unfold evaluate
  split
  · rename_i e _ _
    rw [Expression.evaluate, Expression.evaluate, Expr.eval_of_agrees h]
  · rfl

namespace Render

/-! ## Steps -/

/-- The step puts the context back, and does the same in every context that gives names the same
values. -/
def LooksUp {α : Type} (x : Render α) : Prop :=
  Frames x ∧ ∀ s c, s.context.Agrees c →
    run x { s with context := c } = ((run x s).1, { (run x s).2 with context := c })

section

variable {α β : Type}

/-- A step that does not read the context. -/
theorem looksUp_of_frames {x : Render α} (hx : Frames x)
    (h : ∀ s c, run x { s with context := c } = ((run x s).1, { (run x s).2 with context := c })) :
    LooksUp x :=
  ⟨hx, fun s c _ => h s c⟩

theorem looksUp_bind {x : Render α} {f : α → Render β} (hx : LooksUp x)
    (hf : ∀ a, LooksUp (f a)) : LooksUp (x >>= f) := by
  refine ⟨frames_bind hx.1 fun a => (hf a).1, ?_⟩
  intro s c h
  rw [run_bind, run_bind, hx.2 s c h]
  rcases hr : run x s with ⟨e | a, s'⟩
  · rfl
  · have h' : s'.context.Agrees c := (hx.1.context_eq hr).symm ▸ h
    exact (hf a).2 s' c h'

theorem looksUp_lift (r : Except Error α) : LooksUp (liftM r : Render α) :=
  looksUp_of_frames (fun _ => ⟨rfl, rfl⟩) fun _ _ => rfl

theorem looksUp_evaluate (source : String) : LooksUp (evaluate source) := by
  refine ⟨frames_evaluate source, ?_⟩
  intro s c h
  simp only [run, evaluate, s.expressions.evaluate_of_agrees h source]

theorem looksUp_evaluateBindings (bindings : List (String × String)) :
    LooksUp (evaluateBindings bindings) := by
  induction bindings with
  | nil => exact looksUp_lift (.ok [])
  | cons binding bindings ih =>
    exact looksUp_bind (looksUp_evaluate binding.2) fun value =>
      looksUp_bind ih fun values => looksUp_lift (.ok ((binding.1, value) :: values))

theorem looksUp_withScope {x : Render α} (bindings : Fields Value) (hx : LooksUp x) :
    LooksUp (withScope bindings x) := by
  refine ⟨frames_withScope bindings hx.1, ?_⟩
  intro s c h
  have hbody := hx.2 (s.push bindings) (c.push bindings) (h.push bindings)
  rw [run_withScope, run_withScope]
  show ((run x { s.push bindings with context := c.push bindings }).1,
    (run x { s.push bindings with context := c.push bindings }).2.pop) = _
  rw [hbody]
  rfl

theorem looksUp_withInclusion {x : Render α} (name : String) (hx : LooksUp x) :
    LooksUp (withInclusion name x) := by
  refine ⟨frames_withInclusion name hx.1, ?_⟩
  intro s c h
  have hbody := hx.2 { s with chain := name :: s.chain } c h
  rw [run_withInclusion, run_withInclusion]
  dsimp only at hbody ⊢
  rw [hbody]

/-- A static block is rendered in a context of its own. -/
theorem looksUp_static (holder : Holder) (place : Place) (x : Render String) :
    LooksUp (static holder place x) := by
  refine looksUp_of_frames (frames_static holder place x) ?_
  intro s c
  have hresolved : State.resolved { s with context := c } holder place =
      s.resolved holder place := by
    cases holder <;> rfl
  have hdetached : run (detached x) { s with context := c } =
      ((run (detached x) s).1, { (run (detached x) s).2 with context := c }) := rfl
  rw [run, run, static, static, hresolved, hdetached]
  cases s.resolved holder place with
  | some text => rfl
  | none =>
    rcases run (detached x) s with ⟨e | text, s'⟩
    · rfl
    · cases holder <;> rfl

theorem looksUp_checkCycle (name : String) : LooksUp (checkCycle name) := by
  refine looksUp_of_frames (frames_checkCycle name) ?_
  intro s c
  by_cases h : name ∈ s.chain
  · rw [run_checkCycle_of_mem h]
    exact run_checkCycle_of_mem h
  · rw [run_checkCycle_of_not_mem h]
    exact run_checkCycle_of_not_mem h

theorem looksUp_load (settings : Settings) (name : String) : LooksUp (load settings name) := by
  refine looksUp_of_frames (frames_load settings name) ?_
  intro s c
  rw [run, run, load, load]
  cases settings.loader <;> rfl

end

theorem congruence_looksUp (holder : Holder) {enter : String → Attributes → Render String}
    (h : ∀ resource attributes, LooksUp (enter resource attributes)) :
    Congruence (fun x _ => LooksUp x) holder enter enter where
  pure a := looksUp_lift (.ok a)
  lift := looksUp_lift
  bind := looksUp_bind
  evaluate := looksUp_evaluate
  withScope := looksUp_withScope
  static place _ := looksUp_static holder place _
  enter := h

theorem looksUp_enter (settings : Settings) (remaining : Nat) (resource : String)
    (attributes : Attributes) : LooksUp (enter settings remaining resource attributes) := by
  induction remaining generalizing resource attributes with
  | zero => exact looksUp_bind (looksUp_checkCycle _) fun _ => looksUp_lift (.error _)
  | succ remaining ih =>
    refine looksUp_bind (looksUp_checkCycle _) fun _ => looksUp_bind (looksUp_load settings _)
      fun p => looksUp_bind (looksUp_evaluateBindings _) fun bindings => ?_
    refine looksUp_withInclusion _ (looksUp_withScope bindings ?_)
    exact (congruence_looksUp (.stored p.1) ih).renderBlocks p.2.blocks [] 0

theorem looksUp_including (settings : Settings) (resource : String) (attributes : Attributes) :
    LooksUp (including settings resource attributes) :=
  ⟨frames_including settings resource attributes,
    fun s c h => (looksUp_enter settings _ resource attributes).2 s c h⟩

/-! ## Renderings -/

/-- A rendering in contexts that give every name the same value has the same result, be it a text or
an error, and leaves the same behind: texts of static blocks, templates and expressions, and the
names that the loader was asked for. -/
theorem render_of_lookup {c c' : Context} (h : ∀ name, c.lookup name = c'.lookup name)
    (settings : Settings) (holder : Holder) (blocks : List Block) (s : State) :
    let rendering := renderBlocks (including settings) holder [] 0 blocks
    let first := run rendering { s with context := c }
    let other := run rendering { s with context := c' }
    other = (first.1, { first.2 with context := c' }) ∧
      ∀ (e : Engine) t, e.render t c' =
        ((e.render t c).1, (e.render t c).2.1, (e.render t c).2.2.1, c') := by
  intro rendering first other
  have hlooks (settings : Settings) (holder : Holder) (blocks : List Block) :
      LooksUp (renderBlocks (including settings) holder [] 0 blocks) :=
    (congruence_looksUp holder (looksUp_including settings)).renderBlocks blocks [] 0
  refine ⟨(hlooks settings holder blocks).2 { s with context := c } c' h, ?_⟩
  intro e t
  have hrun := (hlooks e.settings .own t.blocks).2
    { context := c, cells := t.cells, store := e.store, expressions := e.expressions } c' h
  rw [Engine.render, Engine.run, Engine.render, Engine.run, tree]
  dsimp only at hrun ⊢
  rw [hrun]

/-- Two local scopes, of which the inner one hides a binding of the outer one and of the root. -/
def layered : Context :=
  ⟨[("m", .int 2), ("n", .int 1)], [[("n", .int 3)], [("n", .int 4)]]⟩

/-- The bindings of `layered` that can be seen, all of them at the root. -/
def flat : Context := ⟨[("m", .int 2), ("n", .int 3)], []⟩

/-- A loop that hides a name, and the name after the loop. -/
def hidingLoop : List Block :=
  [.loop .start "m" "[n, m]" [] "" [.inline .start "m"], .inline .start "m"]

theorem layered_flat :
    (∀ name, layered.lookup name = flat.lookup name) ∧
      let rendering := renderBlocks (including {}) .own [] 0 hidingLoop
      (run rendering { context := layered }).1.toOption = some "322" ∧
        run rendering { context := flat } =
          ((run rendering { context := layered }).1,
            { (run rendering { context := layered }).2 with context := flat }) := by
  have h : ∀ name, layered.lookup name = flat.lookup name := by
    intro name
    by_cases hm : "m" = name
    · subst hm
      rfl
    · by_cases hn : "n" = name <;> simp [layered, flat, Context.lookup, Fields.get?, hm, hn]
  exact ⟨h, by decide +kernel, (render_of_lookup h {} .own hidingLoop { context := flat }).1⟩

end Render

end Stencil
