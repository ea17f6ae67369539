import Mathlib.Logic.Relation
import Stencil.Proofs.Render.Steps

/-!
# Points of a rendering

A point of a rendering is a task that is begun in a state. `Leads` relates a point to those that its
run begins next, and `Passes` to all that it comes to. `Leads` cannot go on for ever, so that
whatever follows from its being true of the next points is true of every point
(`Point.induction`).

The run of a point is put together from the runs of the next ones. There is an equation for each way
in which it can go on, except for those that hold by definition.
-/

namespace Stencil.Render

open Markup (Block Attributes)

/-- Something to be rendered, or of which the static blocks are to be rendered. -/
inductive Task where
  | block (place : Place) (block : Block)
  | blocks (place : Place) (index : Nat) (blocks : List Block)
  /-- A body for each of the elements. -/
  | loop (place : Place) (variableName : String) (body : List Block) (items : List Value)
  | bindBlock (place : Place) (block : Block)
  | bindBlocks (place : Place) (index : Nat) (blocks : List Block)

/-- The static blocks inside of a task have places that are at least this long. -/
def Task.level : Task → Nat
  | .block place _ => place.length
  | .blocks place _ _ => place.length + 1
  | .loop place _ _ _ => place.length + 1
  | .bindBlock place _ => place.length
  | .bindBlocks place _ _ => place.length + 1

/-- The step that does a task. The binding of static blocks has no text. -/
def Task.step (settings : Settings) (holder : Holder) : Task → Render String
  | .block place b => renderBlock (including settings) holder place b
  | .blocks place index bs => renderBlocks (including settings) holder place index bs
  | .loop place variableName body items =>
    Render.loop variableName (renderBlocks (including settings) holder place 0 body) items
  | .bindBlock place b => Render.bindBlock settings place b >>= fun _ => pure ""
  | .bindBlocks place index bs => Render.bindBlocks settings place index bs >>= fun _ => pure ""

/-- A task that is begun in a state. -/
structure Point where
  holder : Holder
  task : Task
  state : State

/-- The outcome of a point. -/
def Point.run (settings : Settings) (p : Point) : Except Error String × State :=
  Render.run (p.task.step settings p.holder) p.state

/-- The state in which the blocks of an included template are begun. -/
def State.enter (name : String) (bindings : Fields Value) (s : State) : State :=
  { s with chain := name :: s.chain, context := s.context.push bindings }

/-- The state after the blocks of an included template. -/
def State.leave (s : State) : State := { s with chain := s.chain.tail, context := s.context.pop }

/-- The run of the first point begins the second one, and does what is left of its own task after
it. -/
inductive Leads (settings : Settings) : Point → Point → Prop
  | loop {holder place l variableName collection attributes raw body s s' value items}
      (hv : Render.run (evaluate collection) s = (.ok value, s'))
      (hi : elements collection value = .ok items) :
      Leads settings
        ⟨holder, .block place (.loop l variableName collection attributes raw body), s⟩
        ⟨holder, .loop place variableName body items, s'⟩
  | item {holder place variableName body item items s} :
      Leads settings ⟨holder, .loop place variableName body (item :: items), s⟩
        ⟨holder, .blocks place 0 body, s.push [(variableName, item)]⟩
  | items {holder place variableName body item items s s' text}
      (h : Point.run settings ⟨holder, .blocks place 0 body, s.push [(variableName, item)]⟩ =
        (.ok text, s')) :
      Leads settings ⟨holder, .loop place variableName body (item :: items), s⟩
        ⟨holder, .loop place variableName body items, s'.pop⟩
  | cond {holder place l condition attributes raw body s s' value}
      (hv : Render.run (evaluate condition) s = (.ok value, s'))
      (ht : truth condition value = .ok true) :
      Leads settings ⟨holder, .block place (.cond l condition attributes raw body), s⟩
        ⟨holder, .blocks place 0 body, s'⟩
  | static {holder place l raw body} {s : State} (h : s.resolved holder place = none) :
      Leads settings ⟨holder, .block place (.static l raw body), s⟩
        ⟨holder, .blocks place 0 body, s.detach⟩
  | inclusion {holder place l resource attributes s s₁ s₂ key bindings} {t : Template}
      (hc : canonicalName settings resource ∉ s.chain)
      (hd : s.chain.length < settings.config.maxInclusionDepth)
      (hl : Render.run (load settings (canonicalName settings resource)) s = (.ok (key, t), s₁))
      (hb : Render.run (evaluateBindings (Block.bindings attributes)) s₁ = (.ok bindings, s₂)) :
      Leads settings ⟨holder, .block place (.inclusion l resource attributes), s⟩
        ⟨.stored key, .blocks [] 0 t.blocks,
          s₂.enter (canonicalName settings resource) bindings⟩
  | first {holder place index block blocks s} :
      Leads settings ⟨holder, .blocks place index (block :: blocks), s⟩
        ⟨holder, .block (index :: place) block, s⟩
  | next {holder place index block blocks s s' text}
      (h : Point.run settings ⟨holder, .block (index :: place) block, s⟩ = (.ok text, s')) :
      Leads settings ⟨holder, .blocks place index (block :: blocks), s⟩
        ⟨holder, .blocks place (index + 1) blocks, s'⟩
  | bindStatic {place l raw body s} :
      Leads settings ⟨.own, .bindBlock place (.static l raw body), s⟩
        ⟨.own, .block place (.static l raw body), s⟩
  | bindLoop {place l variableName collection attributes raw body s} :
      Leads settings
        ⟨.own, .bindBlock place (.loop l variableName collection attributes raw body), s⟩
        ⟨.own, .bindBlocks place 0 body, s⟩
  | bindCond {place l condition attributes raw body s} :
      Leads settings ⟨.own, .bindBlock place (.cond l condition attributes raw body), s⟩
        ⟨.own, .bindBlocks place 0 body, s⟩
  | bindFirst {place index block blocks s} :
      Leads settings ⟨.own, .bindBlocks place index (block :: blocks), s⟩
        ⟨.own, .bindBlock (index :: place) block, s⟩
  | bindNext {place index block blocks s s' text}
      (h : Point.run settings ⟨.own, .bindBlock (index :: place) block, s⟩ = (.ok text, s')) :
      Leads settings ⟨.own, .bindBlocks place index (block :: blocks), s⟩
        ⟨.own, .bindBlocks place (index + 1) blocks, s'⟩

/-- The run of the first point comes to the second one. -/
def Passes (settings : Settings) : Point → Point → Prop :=
  Relation.ReflTransGen (Leads settings)

namespace Point

variable {settings : Settings} {holder : Holder} {place : Place} {index : Nat} {s s' : State}

/-! ## The run of a point -/

theorem run_inline (l : Markup.Location) (expression : String) :
    run settings ⟨holder, .block place (.inline l expression), s⟩ =
      ((Render.run (evaluate expression) s).1.map Value.display,
        (Render.run (evaluate expression) s).2) := by
  show Render.run (evaluate expression >>= fun value => pure value.display) s = _
  rw [run_bind]
  rcases Render.run (evaluate expression) s with ⟨_ | _, _⟩ <;> rfl

section

variable {l : Markup.Location} {variableName collection condition resource raw : String}
  {attributes : Attributes} {block : Block} {body blocks : List Block} {value item : Value}
  {items : List Value} {e : Error}

theorem run_loop_error (h : Render.run (evaluate collection) s = (.error e, s')) :
    run settings ⟨holder, .block place (.loop l variableName collection attributes raw body), s⟩ =
      (.error e, s') :=
  run_bind_error h

theorem run_loop_type (h : Render.run (evaluate collection) s = (.ok value, s'))
    (hi : elements collection value = .error e) :
    run settings ⟨holder, .block place (.loop l variableName collection attributes raw body), s⟩ =
      (.error e, s') := by
  refine (run_bind_ok h).trans (run_bind_error ?_)
  rw [hi, run_lift]

theorem run_loop (h : Render.run (evaluate collection) s = (.ok value, s'))
    (hi : elements collection value = .ok items) :
    run settings ⟨holder, .block place (.loop l variableName collection attributes raw body), s⟩ =
      run settings ⟨holder, .loop place variableName body items, s'⟩ := by
  refine (run_bind_ok h).trans (run_bind_ok ?_)
  rw [hi, run_lift]

theorem run_cond_error (h : Render.run (evaluate condition) s = (.error e, s')) :
    run settings ⟨holder, .block place (.cond l condition attributes raw body), s⟩ =
      (.error e, s') :=
  run_bind_error h

theorem run_cond_type (h : Render.run (evaluate condition) s = (.ok value, s'))
    (ht : truth condition value = .error e) :
    run settings ⟨holder, .block place (.cond l condition attributes raw body), s⟩ =
      (.error e, s') := by
  refine (run_bind_ok h).trans (run_bind_error ?_)
  rw [ht, run_lift]

theorem run_cond_true (h : Render.run (evaluate condition) s = (.ok value, s'))
    (ht : truth condition value = .ok true) :
    run settings ⟨holder, .block place (.cond l condition attributes raw body), s⟩ =
      run settings ⟨holder, .blocks place 0 body, s'⟩ := by
  refine (run_bind_ok h).trans ((run_bind_ok (a := true) ?_).trans rfl)
  rw [ht, run_lift]

theorem run_cond_false (h : Render.run (evaluate condition) s = (.ok value, s'))
    (ht : truth condition value = .ok false) :
    run settings ⟨holder, .block place (.cond l condition attributes raw body), s⟩ =
      (.ok "", s') := by
  refine (run_bind_ok h).trans ((run_bind_ok (a := false) ?_).trans rfl)
  rw [ht, run_lift]

theorem run_static_resolved {text : String} (h : s.resolved holder place = some text) :
    run settings ⟨holder, .block place (.static l raw body), s⟩ = (.ok text, s) :=
  Render.run_static_resolved h

theorem run_static_error (h : s.resolved holder place = none)
    (hb : run settings ⟨holder, .blocks place 0 body, s.detach⟩ = (.error e, s')) :
    run settings ⟨holder, .block place (.static l raw body), s⟩ = (.error e, s.reattach s') :=
  Render.run_static_error h hb

theorem run_static {text : String} (h : s.resolved holder place = none)
    (hb : run settings ⟨holder, .blocks place 0 body, s.detach⟩ = (.ok text, s')) :
    run settings ⟨holder, .block place (.static l raw body), s⟩ =
      (.ok ((((s.reattach s').keep holder place text).resolved holder place).getD text),
        (s.reattach s').keep holder place text) :=
  Render.run_static_ok h hb

/-! ### Inclusions -/

theorem run_inclusion_of_mem (h : canonicalName settings resource ∈ s.chain) :
    run settings ⟨holder, .block place (.inclusion l resource attributes), s⟩ =
      (.error (.cyclicInclusion (canonicalName settings resource)
        (canonicalName settings resource :: s.chain).reverse), s) :=
  run_including_of_mem h

theorem run_inclusion_of_le (h : canonicalName settings resource ∉ s.chain)
    (hd : settings.config.maxInclusionDepth ≤ s.chain.length) :
    run settings ⟨holder, .block place (.inclusion l resource attributes), s⟩ =
      (.error (.inclusionDepthExceeded settings.config.maxInclusionDepth), s) :=
  run_including_of_le h hd

variable (h : canonicalName settings resource ∉ s.chain)
  (hd : s.chain.length < settings.config.maxInclusionDepth)

include h hd

theorem run_inclusion_load
    (hl : Render.run (load settings (canonicalName settings resource)) s = (.error e, s')) :
    run settings ⟨holder, .block place (.inclusion l resource attributes), s⟩ = (.error e, s') :=
  (run_including_of_lt h hd).trans (run_bind_error hl)

variable {key : String} {t : Template} {s₁ s₂ : State} {bindings : Fields Value}
  (hl : Render.run (load settings (canonicalName settings resource)) s = (.ok (key, t), s₁))

include hl

theorem run_inclusion_bindings
    (hb : Render.run (evaluateBindings (Block.bindings attributes)) s₁ = (.error e, s₂)) :
    run settings ⟨holder, .block place (.inclusion l resource attributes), s⟩ = (.error e, s₂) :=
  (run_including_of_lt h hd).trans ((run_bind_ok hl).trans (run_bind_error hb))

theorem run_inclusion
    (hb : Render.run (evaluateBindings (Block.bindings attributes)) s₁ = (.ok bindings, s₂)) :
    run settings ⟨holder, .block place (.inclusion l resource attributes), s⟩ =
      ((run settings ⟨.stored key, .blocks [] 0 t.blocks,
          s₂.enter (canonicalName settings resource) bindings⟩).1,
        (run settings ⟨.stored key, .blocks [] 0 t.blocks,
          s₂.enter (canonicalName settings resource) bindings⟩).2.leave) :=
  (run_including_of_lt h hd).trans ((run_bind_ok hl).trans (run_bind_ok hb))

end

/-! ### Sequences -/

section

variable {variableName : String} {block : Block} {body blocks : List Block} {item : Value}
  {items : List Value} {e : Error} {text : String}

theorem run_items_error
    (h : run settings ⟨holder, .blocks place 0 body, s.push [(variableName, item)]⟩ =
      (.error e, s')) :
    run settings ⟨holder, .loop place variableName body (item :: items), s⟩ =
      (.error e, s'.pop) := by
  refine run_bind_error ?_
  rw [run_withScope]
  exact congrArg (fun p : Except Error String × State => (p.1, p.2.pop)) h

theorem run_items
    (h : run settings ⟨holder, .blocks place 0 body, s.push [(variableName, item)]⟩ =
      (.ok text, s')) :
    run settings ⟨holder, .loop place variableName body (item :: items), s⟩ =
      ((run settings ⟨holder, .loop place variableName body items, s'.pop⟩).1.map (text ++ ·),
        (run settings ⟨holder, .loop place variableName body items, s'.pop⟩).2) := by
  have hw : Render.run (withScope [(variableName, item)]
      (renderBlocks (including settings) holder place 0 body)) s = (.ok text, s'.pop) := by
    rw [run_withScope]
    exact congrArg (fun p : Except Error String × State => (p.1, p.2.pop)) h
  refine (run_bind_ok hw).trans ((run_bind _ _ _).trans ?_)
  show _ = ((Render.run (Render.loop variableName _ items) s'.pop).1.map (text ++ ·),
    (Render.run (Render.loop variableName _ items) s'.pop).2)
  rcases Render.run (Render.loop variableName _ items) s'.pop with ⟨_ | _, _⟩ <;> rfl

theorem run_blocks_error
    (h : run settings ⟨holder, .block (index :: place) block, s⟩ = (.error e, s')) :
    run settings ⟨holder, .blocks place index (block :: blocks), s⟩ = (.error e, s') :=
  run_bind_error h

theorem run_blocks_cons
    (h : run settings ⟨holder, .block (index :: place) block, s⟩ = (.ok text, s')) :
    run settings ⟨holder, .blocks place index (block :: blocks), s⟩ =
      ((run settings ⟨holder, .blocks place (index + 1) blocks, s'⟩).1.map (text ++ ·),
        (run settings ⟨holder, .blocks place (index + 1) blocks, s'⟩).2) := by
  refine (run_bind_ok h).trans ((run_bind _ _ _).trans ?_)
  show _ = ((Render.run (renderBlocks _ holder place (index + 1) blocks) s').1.map (text ++ ·),
    (Render.run (renderBlocks _ holder place (index + 1) blocks) s').2)
  rcases Render.run (renderBlocks _ holder place (index + 1) blocks) s' with ⟨_ | _, _⟩ <;> rfl

end

/-! ### The binding of static blocks -/

theorem run_silent {α : Type} (x : Render α) (s : State) :
    Render.run (x >>= fun _ => (pure "" : Render String)) s =
      ((Render.run x s).1.map fun _ => "", (Render.run x s).2) := by
  rw [run_bind]
  rcases Render.run x s with ⟨_ | _, _⟩ <;> rfl

theorem run_eq_of_silent_ok {x : Render Unit} {text : String}
    (h : Render.run (x >>= fun _ => (pure "" : Render String)) s = (.ok text, s')) :
    Render.run x s = (.ok (), s') := by
  rw [run_silent] at h
  rcases hx : Render.run x s with ⟨_ | _, _⟩
  · rw [hx] at h
    cases h
  · rw [hx] at h
    cases h
    rfl

theorem run_eq_of_silent_error {x : Render Unit} {e : Error}
    (h : Render.run (x >>= fun _ => (pure "" : Render String)) s = (.error e, s')) :
    Render.run x s = (.error e, s') := by
  rw [run_silent] at h
  rcases hx : Render.run x s with ⟨_ | _, _⟩
  · rw [hx] at h
    cases h
    rfl
  · rw [hx] at h
    cases h

section

variable {l : Markup.Location} {variableName collection condition raw : String}
  {attributes : Attributes} {block : Block} {body blocks : List Block} {e : Error} {text : String}

theorem run_bindStatic :
    run settings ⟨.own, .bindBlock place (.static l raw body), s⟩ =
      ((run settings ⟨.own, .block place (.static l raw body), s⟩).1.map fun _ => "",
        (run settings ⟨.own, .block place (.static l raw body), s⟩).2) := by
  show Render.run ((static .own place _ >>= fun _ => (pure () : Render Unit)) >>= fun _ =>
    (pure "" : Render String)) s = _
  rw [run_silent, run_bind]
  show _ = ((Render.run (static .own place _) s).1.map _, (Render.run (static .own place _) s).2)
  rcases Render.run (static .own place _) s with ⟨_ | _, _⟩ <;> rfl

theorem run_bindBlocks_error
    (h : run settings ⟨.own, .bindBlock (index :: place) block, s⟩ = (.error e, s')) :
    run settings ⟨.own, .bindBlocks place index (block :: blocks), s⟩ = (.error e, s') :=
  run_bind_error (run_bind_error (run_eq_of_silent_error h))

theorem run_bindBlocks_cons
    (h : run settings ⟨.own, .bindBlock (index :: place) block, s⟩ = (.ok text, s')) :
    run settings ⟨.own, .bindBlocks place index (block :: blocks), s⟩ =
      run settings ⟨.own, .bindBlocks place (index + 1) blocks, s'⟩ := by
  have hx : Render.run (bindBlock settings (index :: place) block) s = (.ok (), s') :=
    run_eq_of_silent_ok h
  show Render.run ((bindBlock settings (index :: place) block >>= fun _ =>
    bindBlocks settings place (index + 1) blocks) >>= fun _ => (pure "" : Render String)) s = _
  rw [run_silent, run_bind_ok hx, ← run_silent]
  rfl

end

/-! ## Context and chain -/

/-- What is true of the steps that rendering is put together from is true of every task. -/
theorem step_of_congruence {R : {α : Type} → Render α → Render α → Prop}
    (hR : ∀ holder, Congruence R holder (including settings) (including settings))
    (holder : Holder) (task : Task) :
    R (task.step settings holder) (task.step settings holder) := by
  cases task with
  | block place block => exact (hR holder).renderBlock block place
  | blocks place index blocks => exact (hR holder).renderBlocks blocks place index
  | loop place variableName body items =>
    exact (hR holder).loop variableName ((hR holder).renderBlocks body place 0) items
  | bindBlock place block =>
    exact (hR .own).bind ((hR .own).bindBlock block place) fun _ => (hR .own).pure ""
  | bindBlocks place index blocks =>
    exact (hR .own).bind ((hR .own).bindBlocks blocks place index) fun _ => (hR .own).pure ""

/-- Every point puts context and chain back. -/
theorem frames (settings : Settings) (holder : Holder) (task : Task) :
    Frames (task.step settings holder) :=
  step_of_congruence (R := fun x _ => Frames x)
    (fun holder => congruence_frames holder (frames_including settings)) holder task

theorem chain_eq {p : Point} {r : Except Error String} (h : p.run settings = (r, s')) :
    s'.chain = p.state.chain :=
  (frames settings p.holder p.task).chain_eq h

theorem context_eq {p : Point} {r : Except Error String} (h : p.run settings = (r, s')) :
    s'.context = p.state.context :=
  (frames settings p.holder p.task).context_eq h

end Point

/-! ## Induction over points -/

/-- The size of a task: that of its blocks, and what there is to do with them. -/
noncomputable def Task.size : Task → Nat × Nat
  | .block _ b => (sizeOf b, 0)
  | .blocks _ _ bs => (sizeOf bs, 0)
  | .loop _ _ body items => (sizeOf body, items.length + 1)
  | .bindBlock _ b => (sizeOf b, 1)
  | .bindBlocks _ _ bs => (sizeOf bs, 1)

/-- How often the chain may still grow at a point. -/
def Point.remaining (settings : Settings) (p : Point) : Nat :=
  settings.config.maxInclusionDepth - p.state.chain.length

theorem Point.remaining_eq {settings : Settings} {p q : Point}
    (h : q.state.chain = p.state.chain) : q.remaining settings = p.remaining settings := by
  rw [remaining, remaining, h]

/-- A point that is led to has a longer chain, or the same one and a smaller task. -/
theorem Leads.lt {settings : Settings} {p q : Point} (h : Leads settings p q) :
    q.remaining settings < p.remaining settings ∨
      q.remaining settings = p.remaining settings ∧
        Prod.Lex (· < ·) (· < ·) q.task.size p.task.size := by
  cases h with
  | loop hv hi =>
    have hc := (frames_evaluate _).chain_eq hv
    exact .inr ⟨Point.remaining_eq hc, .left _ _ (by decreasing_tactic)⟩
  | item => exact .inr ⟨rfl, .right _ (Nat.succ_pos _)⟩
  | items h =>
    have hc := Point.chain_eq h
    exact .inr ⟨Point.remaining_eq hc, .right _ (Nat.lt_succ_self _)⟩
  | cond hv ht =>
    have hc := (frames_evaluate _).chain_eq hv
    exact .inr ⟨Point.remaining_eq hc, .left _ _ (by decreasing_tactic)⟩
  | static h => exact .inr ⟨rfl, .left _ _ (by decreasing_tactic)⟩
  | inclusion hc hd hl hb =>
    have h₁ := (frames_load _ _).chain_eq hl
    have h₂ := (frames_evaluateBindings _).chain_eq hb
    left
    simp only [Point.remaining, State.enter, h₂, h₁, List.length_cons]
    omega
  | first => exact .inr ⟨rfl, .left _ _ (by decreasing_tactic)⟩
  | next h =>
    have hc := Point.chain_eq h
    exact .inr ⟨Point.remaining_eq hc, .left _ _ (by decreasing_tactic)⟩
  | bindStatic => exact .inr ⟨rfl, .right _ (Nat.succ_pos _)⟩
  | bindLoop => exact .inr ⟨rfl, .left _ _ (by decreasing_tactic)⟩
  | bindCond => exact .inr ⟨rfl, .left _ _ (by decreasing_tactic)⟩
  | bindFirst => exact .inr ⟨rfl, .left _ _ (by decreasing_tactic)⟩
  | bindNext h =>
    have hc := Point.chain_eq h
    exact .inr ⟨Point.remaining_eq hc, .left _ _ (by decreasing_tactic)⟩

/-- What follows from its being true of all next points is true of every point. -/
theorem Point.induction (settings : Settings) {motive : Point → Prop}
    (step : ∀ p, (∀ q, Leads settings p q → motive q) → motive p) (p : Point) : motive p := by
  have hwf : WellFounded fun q p : Point => Leads settings p q := by
    refine Subrelation.wf ?_ (InvImage.wf
      (fun p : Point => (p.remaining settings, p.task.size))
      (Prod.lex Nat.lt_wfRel (Prod.lex Nat.lt_wfRel Nat.lt_wfRel)).wf)
    intro q p h
    rcases h.lt with h | ⟨he, h⟩
    · exact .left _ _ h
    · show Prod.Lex _ _ (_, _) (_, _)
      rw [he]
      exact .right _ h
  exact hwf.induction p step

end Stencil.Render
