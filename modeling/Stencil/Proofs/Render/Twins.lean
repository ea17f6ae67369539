import Stencil.Proofs.Render.Outcome

/-!
# Runs with different things kept

`Twins` are states that differ at most in the chain and in what is kept, which is sound in both. If
a tree has a text from both of them, it is the same one, whatever is kept (`Twins.blocks`). An
inclusion returns a text that its template yields, and a template yields at most one.
-/

namespace Stencil.Render

open Markup (Block Attributes)

variable {settings : Settings}

/-! ## Inclusions that have a text -/

/-- The state after an inclusion, and the text that its template yields. -/
structure Included (settings : Settings) (resource : String) (attributes : Attributes)
    (text : String) (s s' : State) : Prop where
  sound : Sound settings s'.store s'.expressions
  context : s'.context = s.context
  cells : s'.cells = s.cells
  yields : ∀ key place l, Yields settings s'.store.resolved key s.context
    (.block place (.inclusion l resource attributes)) text

theorem included {resource : String} {attributes : Attributes} {text : String} {s s' : State}
    (hs : Sound settings s.store s.expressions)
    (h : run (including settings resource attributes) s = (.ok text, s')) :
    Included settings resource attributes text s s' := by
  have hc : canonicalName settings resource ∉ s.chain := by
    intro hc
    cases (run_including_of_mem hc).symm.trans h
  have hd : s.chain.length < settings.config.maxInclusionDepth := by
    apply Nat.lt_of_not_le
    intro hd
    cases (run_including_of_le hc hd).symm.trans h
  have hframe := frames_including settings resource attributes
  have h' := (run_including_of_lt hc hd).symm.trans h
  rcases hl : run (load settings (canonicalName settings resource)) s with ⟨e | ⟨key, t⟩, s₁⟩
  · cases (run_bind_error hl).symm.trans h'
  obtain ⟨⟨rfl, hblocks, -⟩, hr⟩ := load_inv hs hl
  have h' := (run_bind_ok hl).symm.trans h'
  rcases hb : run (evaluateBindings (Block.bindings attributes)) s₁ with ⟨e | bindings, s₂⟩
  · cases (run_bind_error hb).symm.trans h'
  obtain ⟨hvalues, hr'⟩ := evaluateBindings_inv hr.sound hb
  rw [hr.context] at hvalues
  have hread := hr.trans hr'
  -- the tree around the inclusion does not matter to what is rendered inside
  let p : Point := ⟨.own, .block [] (.inclusion .start resource attributes), s⟩
  have hlead : Leads settings p _ := .inclusion hc hd hl hb
  have hq := hlead.ready ⟨hs, nofun⟩ fun q _ hq r s hr => q.outcome hq r s hr
  have ho := Point.outcome _ hq _ _ rfl
  have hrun : p.run settings = _ := Point.run_inclusion hc hd hl hb
  obtain ⟨hresult, rfl⟩ := Prod.ext_iff.1 (hrun.symm.trans h)
  have hy := ho.yields _ text rfl hresult
  rw [show State.context _ = s.context.push bindings from
    congrArg (Context.push bindings) hread.context] at hy
  exact ⟨ho.sound, hframe.context_eq h, (ho.cells _ rfl).trans hread.cells,
    fun key place l => .inclusion hblocks hvalues.symm hy⟩

/-! ## Twins -/

/-- States with the same context and the same texts of the tree that the rendering began with. -/
structure Twins (settings : Settings) (s u : State) : Prop where
  left : Sound settings s.store s.expressions
  right : Sound settings u.store u.expressions
  context : u.context = s.context
  cells : u.cells = s.cells

/-- If both steps have results from twins, they have the same one and lead to twins. -/
def Alike (settings : Settings) {α : Type} (x y : Render α) : Prop :=
  ∀ s u, Twins settings s u → ∀ a s' b u', run x s = (.ok a, s') → run y u = (.ok b, u') →
    b = a ∧ Twins settings s' u'

theorem alike_bind {α β : Type} {x y : Render α} {f g : α → Render β} (hx : Alike settings x y)
    (hf : ∀ a, Alike settings (f a) (g a)) : Alike settings (x >>= f) (y >>= g) := by
  intro s u h a s' b u' hr hw
  rcases hr₁ : run x s with ⟨e | c, s₁⟩
  · cases (run_bind_error hr₁).symm.trans hr
  rcases hw₁ : run y u with ⟨e | d, u₁⟩
  · cases (run_bind_error hw₁).symm.trans hw
  obtain ⟨rfl, h₁⟩ := hx s u h c s₁ d u₁ hr₁ hw₁
  exact hf d s₁ u₁ h₁ a s' b u' ((run_bind_ok hr₁).symm.trans hr) ((run_bind_ok hw₁).symm.trans hw)

theorem alike_lift {α : Type} (r : Except Error α) :
    Alike settings (liftM r : Render α) (liftM r) := by
  intro s u h a s' b u' hr hw
  rw [run_lift] at hr hw
  cases hr
  cases hw
  exact ⟨rfl, h⟩

theorem alike_evaluate (source : String) :
    Alike settings (evaluate source) (evaluate source) := by
  intro s u h a s' b u' hr hw
  obtain ⟨ha, hs⟩ := evaluate_inv h.left hr
  obtain ⟨hb, hu⟩ := evaluate_inv h.right hw
  rw [h.context] at hb
  cases ha.trans hb.symm
  exact ⟨rfl, hs.sound, hu.sound, hu.context.trans (h.context.trans hs.context.symm),
    hu.cells.trans (h.cells.trans hs.cells.symm)⟩

theorem alike_withScope {x y : Render String} (bindings : Fields Value)
    (hx : Alike settings x y) : Alike settings (withScope bindings x) (withScope bindings y) := by
  intro s u h a s' b u' hr hw
  have hpush : Twins settings (s.push bindings) (u.push bindings) :=
    ⟨h.left, h.right, congrArg (Context.push bindings) h.context, h.cells⟩
  rcases hr₁ : run x (s.push bindings) with ⟨r, s₁⟩
  rcases hw₁ : run y (u.push bindings) with ⟨r', u₁⟩
  rw [run_withScope, hr₁] at hr
  rw [run_withScope, hw₁] at hw
  cases hr
  cases hw
  obtain ⟨he, h'⟩ := hx _ _ hpush a s₁ b u₁ hr₁ hw₁
  exact ⟨he, h'.left, h'.right, congrArg Context.pop h'.context, h'.cells⟩

/-- Which texts of the tree are known is the same in twins. -/
theorem alike_static {x y : Render String} (place : Place) (hx : Alike settings x y) :
    Alike settings (static .own place x) (static .own place y) := by
  intro s u h a s' b u' hr hw
  have hcells : u.resolved .own place = s.resolved .own place :=
    congrArg (Cells.get? place) h.cells
  rw [run, static] at hr hw
  cases hs : s.resolved .own place with
  | some text =>
    rw [hs] at hr
    rw [hcells.trans hs] at hw
    cases hr
    cases hw
    exact ⟨rfl, h⟩
  | none =>
    rw [hs] at hr
    rw [hcells.trans hs] at hw
    have hdetach : Twins settings s.detach u.detach := ⟨h.left, h.right, rfl, h.cells⟩
    rw [run_detached] at hr hw
    rcases hr₁ : run x s.detach with ⟨e | text, s₁⟩
    · rw [hr₁] at hr
      cases hr
    rcases hw₁ : run y u.detach with ⟨e | text', u₁⟩
    · rw [hw₁] at hw
      cases hw
    obtain ⟨rfl, h₁⟩ := hx _ _ hdetach text s₁ text' u₁ hr₁ hw₁
    rw [hr₁] at hr
    rw [hw₁] at hw
    cases hr
    cases hw
    have hkeep := congrArg (Cells.keep place text') h₁.cells
    exact ⟨congrArg (fun cells : Cells => (cells.get? place).getD text') hkeep,
      h₁.left, h₁.right, h.context, hkeep⟩

theorem alike_including (resource : String) (attributes : Attributes) :
    Alike settings (including settings resource attributes)
      (including settings resource attributes) := by
  intro s u h a s' b u' hr hw
  have hs := included h.left hr
  have hu := included h.right hw
  have hy := hu.yields "" [] .start
  rw [h.context] at hy
  exact ⟨(hs.yields "" [] .start).unique hy, hs.sound, hu.sound,
    hu.context.trans (h.context.trans hs.context.symm),
    hu.cells.trans (h.cells.trans hs.cells.symm)⟩

theorem congruence_alike (settings : Settings) :
    Congruence (Alike settings) .own (including settings) (including settings) where
  pure a := alike_lift (.ok a)
  lift := alike_lift
  bind := alike_bind
  evaluate := alike_evaluate
  withScope := alike_withScope
  static := alike_static
  enter := alike_including

section

variable {s s' u u' : State} {place : Place} {index : Nat} {tree : List Block} {a b : String}

theorem Twins.blocks (h : Twins settings s u)
    (hr : Point.run settings ⟨.own, .blocks place index tree, s⟩ = (.ok a, s'))
    (hw : Point.run settings ⟨.own, .blocks place index tree, u⟩ = (.ok b, u')) :
    b = a ∧ Twins settings s' u' :=
  (congruence_alike settings).renderBlocks tree place index s u h a s' b u' hr hw

theorem Twins.bindBlocks (h : Twins settings s u)
    (hr : Point.run settings ⟨.own, .bindBlocks place index tree, s⟩ = (.ok a, s'))
    (hw : Point.run settings ⟨.own, .bindBlocks place index tree, u⟩ = (.ok b, u')) :
    Twins settings s' u' := by
  have hbind := (congruence_alike settings).bindBlocks tree place index
  exact (hbind s u h () s' () u' (Point.run_eq_of_silent_ok hr) (Point.run_eq_of_silent_ok hw)).2

end

end Stencil.Render
