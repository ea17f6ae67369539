import Stencil.Proofs.Render.Outcome

/-!
# Tasks of which the text is known to exist

A task that yields a text may still fail, because an inclusion in it is refused for the chain it
stands in. It cannot fail in another way and it cannot return another text: `yielded_of_yields`. Nor
does its run keep a text that was not known.
-/

namespace Stencil

open Markup (Block Attributes)

/-- The errors that depend on the chain of inclusions. -/
def Error.OfChain : Error → Prop
  | .cyclicInclusion _ _ => True
  | .inclusionDepthExceeded _ => True
  | _ => False

namespace Render

variable {settings : Settings}

theorem Leads.ready_next {p q : Point} (h : Leads settings p q) (hp : Ready settings p) :
    Ready settings q :=
  h.ready hp fun q _ hq r s hr => q.outcome hq r s hr

/-- Every kept text is a known one. -/
def KeptIn (store : Store) (known : String → Place → Option String) : Prop :=
  ∀ key place text, store.resolved key place = some text → known key place = some text

theorem KeptIn.reads {known : String → Place → Option String} {s s' : State}
    (h : KeptIn s.store known) (hr : Reads settings s s') : KeptIn s'.store known := by
  intro key place text hk
  exact h key place text (hr.resolved ▸ hk)

/-- The text of a task, or an error of the chain; nothing unknown is kept. -/
def Yielded (known : String → Place → Option String) (text : String) (r : Except Error String)
    (s : State) : Prop :=
  KeptIn s.store known ∧ (r = .ok text ∨ ∃ e, r = .error e ∧ e.OfChain)

theorem Yielded.error {known : String → Place → Option String} {text text' : String} {e : Error}
    {s : State} (h : Yielded known text (.error e) s) : Yielded known text' (.error e) s := by
  obtain ⟨hk, h | ⟨e', he, hc⟩⟩ := h
  · cases h
  · exact ⟨hk, .inr ⟨e', he, hc⟩⟩

theorem Yielded.eq {known : String → Place → Option String} {text text' : String} {s : State}
    (h : Yielded known text (.ok text') s) : text' = text := by
  obtain ⟨-, h | ⟨e, he, -⟩⟩ := h
  · exact Except.ok.inj h
  · cases he

theorem Yielded.map {known : String → Place → Option String} {text : String} {s : State}
    {r : Except Error String} (f : String → String) (h : Yielded known text r s) :
    Yielded known (f text) (r.map f) s := by
  obtain ⟨hk, rfl | ⟨e, rfl, hc⟩⟩ := h
  · exact ⟨hk, .inl rfl⟩
  · exact ⟨hk, .inr ⟨e, rfl, hc⟩⟩

/-- A task that yields a text of which all static blocks are known can fail for the chain only. -/
theorem yielded_of_yields {known : String → Place → Option String} {key : String} {c : Context}
    {task : Task} {text : String} (h : Yields settings known key c task text) {s : State}
    (hc : s.context = c) (hp : Ready settings ⟨.stored key, task, s⟩)
    (hk : KeptIn s.store known) {r : Except Error String} {s' : State}
    (hr : Point.run settings ⟨.stored key, task, s⟩ = (r, s')) : Yielded known text r s' := by
  induction h generalizing s r s' with
  | text =>
    cases hr
    exact ⟨hk, .inl rfl⟩
  | @inline key c place l expression value hv =>
    rw [Point.run_inline] at hr
    rcases hv' : run (evaluate expression) s with ⟨r₁, s₁⟩
    obtain ⟨hr₁, hread⟩ := evaluate_inv hp.sound hv'
    rw [hc, hv] at hr₁
    subst hr₁
    rw [hv'] at hr
    cases hr
    exact ⟨hk.reads hread, .inl rfl⟩
  | @loop key c place l variableName collection attributes raw body value items text hv hi _ ih =>
    rcases hv' : run (evaluate collection) s with ⟨r₁, s₁⟩
    obtain ⟨hr₁, hread⟩ := evaluate_inv hp.sound hv'
    rw [hc, hv] at hr₁
    subst hr₁
    have hq := (Leads.loop hv' hi).ready_next hp
    exact ih (hread.context.trans hc) hq (hk.reads hread)
      ((Point.run_loop hv' hi).symm.trans hr)
  | @condTrue key c place l condition attributes raw body value text hv ht _ ih =>
    rcases hv' : run (evaluate condition) s with ⟨r₁, s₁⟩
    obtain ⟨hr₁, hread⟩ := evaluate_inv hp.sound hv'
    rw [hc, hv] at hr₁
    subst hr₁
    have hq := (Leads.cond hv' ht).ready_next hp
    exact ih (hread.context.trans hc) hq (hk.reads hread)
      ((Point.run_cond_true hv' ht).symm.trans hr)
  | @condFalse key c place l condition attributes raw body value hv ht =>
    rcases hv' : run (evaluate condition) s with ⟨r₁, s₁⟩
    obtain ⟨hr₁, hread⟩ := evaluate_inv hp.sound hv'
    rw [hc, hv] at hr₁
    subst hr₁
    cases (Point.run_cond_false hv' ht).symm.trans hr
    exact ⟨hk.reads hread, .inl rfl⟩
  | @static key c place l raw body text hknown _ ih =>
    cases hres : s.resolved (.stored key) place with
    | some text' =>
      cases (Point.run_static_resolved hres).symm.trans hr
      cases (hk key place text' hres).symm.trans hknown
      exact ⟨hk, .inl rfl⟩
    | none =>
      have hq := (Leads.static hres).ready_next hp
      rcases hb : Point.run settings ⟨.stored key, .blocks place 0 body, s.detach⟩ with
        ⟨e | text', s₁⟩
      · cases (Point.run_static_error hres hb).symm.trans hr
        exact (ih rfl hq hk hb).error
      · cases (Point.run_static hres hb).symm.trans hr
        have hy := ih rfl hq hk hb
        have ht := hy.eq
        subst ht
        have hpresent := (Point.outcome _ hq _ _ hb).le.templates key (hp.stored key rfl).1
        have hkeep : KeptIn (s₁.store.keep key place text') known := by
          obtain ⟨t, ht⟩ := Option.isSome_iff_exists.1 hpresent
          intro other p u hu
          rcases Store.resolved_keep_inv ht hu with hold | ⟨-, rfl, rfl, rfl⟩
          · exact hy.1 other p u hold
          · exact hknown
        obtain ⟨u, hu⟩ := Store.resolved_keep_self hpresent place text'
        refine ⟨hkeep, .inl ?_⟩
        cases (hkeep key place u hu).symm.trans hknown
        show Except.ok (((s₁.store.keep key place text').resolved key place).getD text') = _
        rw [hu]
        rfl
  | @inclusion key c place l resource attributes blocks bindings text hs hb _ ih =>
    by_cases hcycle : canonicalName settings resource ∈ s.chain
    · cases (Point.run_inclusion_of_mem hcycle).symm.trans hr
      exact ⟨hk, .inr ⟨_, rfl, trivial⟩⟩
    by_cases hd : settings.config.maxInclusionDepth ≤ s.chain.length
    · cases (Point.run_inclusion_of_le hcycle hd).symm.trans hr
      exact ⟨hk, .inr ⟨_, rfl, trivial⟩⟩
    have hd := Nat.lt_of_not_le hd
    rcases hl : run (load settings (canonicalName settings resource)) s with ⟨e | ⟨key', t⟩, s₁⟩
    · cases hs.symm.trans (load_inv hp.sound hl).1
    obtain ⟨⟨rfl, hblocks, -⟩, hread⟩ := load_inv hp.sound hl
    rcases hv : run (evaluateBindings (Block.bindings attributes)) s₁ with ⟨r₂, s₂⟩
    obtain ⟨hr₂, hread'⟩ := evaluateBindings_inv hread.sound hv
    rw [hread.context, hc, hb] at hr₂
    subst hr₂
    have hread := hread.trans hread'
    have hq := (Leads.inclusion hcycle hd hl hv).ready_next hp
    cases (Point.run_inclusion hcycle hd hl hv).symm.trans hr
    have ht : t.blocks = blocks := Except.ok.inj (hblocks.symm.trans hs)
    subst ht
    have hk₂ : KeptIn s₂.store known := hk.reads hread
    have hy : Yielded known text _ _ :=
      ih (congrArg (Context.push bindings) (hread.context.trans hc)) hq hk₂ rfl
    exact hy
  | nil =>
    cases hr
    exact ⟨hk, .inl rfl⟩
  | @cons key c place index block blocks text rest _ _ ih iht =>
    have hq := (Leads.first).ready_next hp
    rcases hf : Point.run settings ⟨.stored key, .block (index :: place) block, s⟩ with
      ⟨e | text', s₁⟩
    · cases (Point.run_blocks_error hf).symm.trans hr
      exact (ih hc hq hk hf).error
    · cases (Point.run_blocks_cons hf).symm.trans hr
      have hy := ih hc hq hk hf
      cases hy.eq
      have hq' := (Leads.next hf).ready_next hp
      exact (iht ((Point.context_eq hf).trans hc) hq' hy.1 rfl).map (text ++ ·)
  | itemsNil =>
    cases hr
    exact ⟨hk, .inl rfl⟩
  | @itemsCons key c place variableName body item items text rest _ _ ih iht =>
    have hq := (Leads.item).ready_next hp
    rcases hf : Point.run settings ⟨.stored key, .blocks place 0 body,
      s.push [(variableName, item)]⟩ with ⟨e | text', s₁⟩
    · cases (Point.run_items_error hf).symm.trans hr
      exact (ih (congrArg (Context.push _) hc) hq hk hf).error
    · cases (Point.run_items hf).symm.trans hr
      have hy := ih (congrArg (Context.push _) hc) hq hk hf
      cases hy.eq
      have hq' := (Leads.items hf).ready_next hp
      have hc' : s₁.pop.context = c := (congrArg Context.pop (Point.context_eq hf)).trans hc
      exact (iht hc' hq' hy.1 rfl).map (text ++ ·)

end Render

end Stencil
