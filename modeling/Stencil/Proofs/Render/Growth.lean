import Mathlib.Order.Basic
import Stencil.Proofs.Render.Finishing
import Stencil.Proofs.Render.Sound

/-!
# What a rendering adds

A state keeps three things for later renderings (`Kept`): texts of static blocks of its own tree,
templates with the texts of theirs, and parsed expressions. A rendering only adds to them, whatever
its outcome (`Finishes.grows`).

So a rendering that had a text finds all that it needs when it is done again, then or later. It has
the same text, and does not change the state at all (`Finishes.again`). Nothing is asked of what is
kept here: it may be anything, as long as the tree that is rendered is there.
-/

namespace Stencil

open Markup (Block Attributes)

/-! ## Parsed expressions -/

namespace Expression.Cache

variable {cache cache' : Cache} {source : String} {c : Context} {r : Except Error Operand}

theorem get?_get {other : String} {e : Expression} (h : Fields.get? other cache = some e) :
    Fields.get? other (cache.get source).2 = some e := by
  unfold get
  split
  · exact h
  · rename_i hn
    split
    · rw [Fields.get?_insert]
      split
      · rename_i hs
        rw [hs, h] at hn
        cases hn
      · exact h
    · exact h

theorem snd_evaluate : (cache.evaluate source c).2 = (cache.get source).2 := by
  unfold evaluate
  split <;> rename_i h <;> rw [h]

/-- After an evaluation the expression is kept, or its text cannot be read. -/
theorem evaluate_inv (h : cache.evaluate source c = (r, cache')) :
    (∃ e, Fields.get? source cache' = some e ∧ r = e.evaluate c) ∨
      Fields.get? source cache' = none ∧ ∃ e, Expression.parse source = .error e ∧
        r = .error e := by
  unfold evaluate get at h
  cases hc : Fields.get? source cache with
  | some e =>
    rw [hc] at h
    cases h
    exact .inl ⟨e, hc, rfl⟩
  | none =>
    rw [hc] at h
    cases hp : Expression.parse source with
    | ok e =>
      rw [hp] at h
      cases h
      exact .inl ⟨e, by rw [Fields.get?_insert, if_pos rfl], rfl⟩
    | error e =>
      rw [hp] at h
      cases h
      exact .inr ⟨hc, e, rfl, rfl⟩

/-- Where the expression is known as it is after an evaluation, the evaluation is the same, and
nothing is added. -/
theorem evaluate_again {other : Cache} (h : cache.evaluate source c = (r, cache'))
    (ho : Fields.get? source other = Fields.get? source cache') :
    other.evaluate source c = (r, other) := by
  unfold evaluate get
  rcases evaluate_inv h with ⟨e, he, rfl⟩ | ⟨hn, e, hp, rfl⟩
  · rw [ho, he]
  · rw [ho, hn, hp]

end Expression.Cache

namespace Render

/-! ## What is kept -/

/-- What a state keeps for later renderings. -/
structure Kept where
  cells : Cells
  templates : Fields Template
  expressions : Expression.Cache

/-- What the state keeps. Which names the loader was asked for does not matter to renderings. -/
def State.kept (s : State) : Kept := ⟨s.cells, s.store.templates, s.expressions⟩

/-- The second one has all that the first one has. -/
structure Kept.Le (k k' : Kept) : Prop where
  cells : ∀ place text, k.cells.get? place = some text → k'.cells.get? place = some text
  templates : ∀ key t, Fields.get? key k.templates = some t →
    ∃ t', Fields.get? key k'.templates = some t' ∧ t'.blocks = t.blocks ∧
      ∀ place text, t.resolved place = some text → t'.resolved place = some text
  expressions : ∀ source e, Fields.get? source k.expressions = some e →
    Fields.get? source k'.expressions = some e

instance : Preorder Kept where
  le := Kept.Le
  le_refl _ := ⟨fun _ _ h => h, fun _ t h => ⟨t, h, rfl, fun _ _ h => h⟩, fun _ _ h => h⟩
  le_trans k₁ k₂ k₃ h h' := by
    refine ⟨fun place text hk => h'.cells place text (h.cells place text hk), ?_,
      fun source e he => h'.expressions source e (h.expressions source e he)⟩
    intro key t ht
    obtain ⟨t₂, ht₂, hb₂, hr₂⟩ := h.templates key t ht
    obtain ⟨t₃, ht₃, hb₃, hr₃⟩ := h'.templates key t₂ ht₂
    exact ⟨t₃, ht₃, hb₃.trans hb₂, fun place text hk => hr₃ place text (hr₂ place text hk)⟩

/-- The tree of the holder is there. -/
def Kept.Has (k : Kept) (holder : Holder) : Prop :=
  ∀ key, holder = .stored key → (Fields.get? key k.templates).isSome

theorem Kept.Has.mono {k k' : Kept} {holder : Holder} (h : k.Has holder) (hk : k ≤ k') :
    k'.Has holder := by
  intro key hh
  obtain ⟨t, ht⟩ := Option.isSome_iff_exists.1 (h key hh)
  obtain ⟨t', ht', -⟩ := hk.templates key t ht
  exact Option.isSome_iff_exists.2 ⟨t', ht'⟩

section

variable {s s' u : State} {holder : Holder} {place : Place} {text : String}

/-- Texts of static blocks stay. -/
theorem State.resolved_of_le (h : s.kept ≤ u.kept) (hs : s.resolved holder place = some text) :
    u.resolved holder place = some text := by
  cases holder with
  | own => exact h.cells place text hs
  | stored key =>
    obtain ⟨t, ht, hr⟩ := Option.bind_eq_some_iff.1 hs
    obtain ⟨t', ht', -, hr'⟩ := h.templates key t ht
    exact Option.bind_eq_some_iff.2 ⟨t', ht', hr' place text hr⟩

theorem State.resolved_eq_none_of_le (h : u.kept ≤ s.kept) (hs : s.resolved holder place = none) :
    u.resolved holder place = none := by
  apply Option.eq_none_iff_forall_ne_some.2
  intro text hu
  cases hs.symm.trans (State.resolved_of_le h hu)

/-- What a text is kept for has that text, or an older one, from then on. -/
theorem State.resolved_keep_self (h : s.kept.Has holder) (place : Place) (text : String) :
    ∃ known, (s.keep holder place text).resolved holder place = some known := by
  cases holder with
  | own =>
    refine ⟨(s.cells.get? place).getD text, ?_⟩
    show (s.cells.keep place text).get? place = _
    rw [Cells.get?_keep, if_pos rfl]
    cases s.cells.get? place <;> rfl
  | stored key => exact Store.resolved_keep_self (h key rfl) place text

/-- Only the static block that a text is kept for may have another text then. -/
theorem State.resolved_keep_of_ne {other : Holder} {p : Place}
    (h : ¬ (holder = other ∧ place = p)) :
    (s.keep holder place text).resolved other p = s.resolved other p := by
  cases holder with
  | own =>
    cases other with
    | own =>
      show (s.cells.keep place text).get? p = _
      rw [Cells.get?_keep, if_neg fun he => h ⟨rfl, he⟩, Option.or_none]
      rfl
    | stored key => rfl
  | stored key =>
    cases other with
    | own => rfl
    | stored key' =>
      show (s.store.keep key place text).resolved key' p = _
      cases hk : Fields.get? key s.store.templates with
      | none =>
        rw [Store.keep_of_none hk]
        rfl
      | some t =>
        rw [Store.resolved_keep hk, if_neg, Option.or_none]
        · rfl
        · rintro ⟨rfl, rfl⟩
          exact h ⟨rfl, rfl⟩

theorem State.le_keep (s : State) (holder : Holder) (place : Place) (text : String) :
    s.kept ≤ (s.keep holder place text).kept := by
  cases holder with
  | own =>
    refine ⟨?_, (le_refl s.kept).templates, fun _ _ h => h⟩
    intro other known hk
    have hk : s.cells.get? other = some known := hk
    show (s.cells.keep place text).get? other = some known
    rw [Cells.get?_keep, hk]
    rfl
  | stored key =>
    refine ⟨fun _ _ h => h, ?_, fun _ _ h => h⟩
    intro other t ht
    have ht : Fields.get? other s.store.templates = some t := ht
    have hm := s.store.get?_keep_templates key place text other
    rw [ht] at hm
    obtain ⟨t', ht', hb⟩ := Option.map_eq_some_iff.1 hm
    refine ⟨t', ht', hb, ?_⟩
    intro p known hk
    have hr := (s.store.le_keep key place text).resolved other p known
      (Option.bind_eq_some_iff.2 ⟨t, ht, hk⟩)
    obtain ⟨t'', ht'', hk'⟩ := Option.bind_eq_some_iff.1 hr
    cases ht'.symm.trans ht''
    exact hk'

/-! ## Reading -/

theorem run_evaluate {source : String} {r : Except Error Operand} {cache : Expression.Cache}
    (h : s.expressions.evaluate source s.context = (r, cache)) :
    run (evaluate source) s = (r.map (·.value), { s with expressions := cache }) := by
  rw [run, evaluate, h]

theorem run_evaluate_inv {source : String} {r : Except Error Value}
    (h : run (evaluate source) s = (r, s')) :
    ∃ operand cache, s.expressions.evaluate source s.context = (operand, cache) ∧
      r = operand.map (·.value) ∧ s' = { s with expressions := cache } := by
  rcases he : s.expressions.evaluate source s.context with ⟨operand, cache⟩
  have hr := (run_evaluate he).symm.trans h
  exact ⟨operand, cache, rfl, (congrArg Prod.fst hr).symm, (congrArg Prod.snd hr).symm⟩

theorem evaluate_grows {source : String} {r : Except Error Value}
    (h : run (evaluate source) s = (r, s')) : s.kept ≤ s'.kept := by
  obtain ⟨operand, cache, he, -, rfl⟩ := run_evaluate_inv h
  refine ⟨fun _ _ h => h, (le_refl s.kept).templates, ?_⟩
  intro other e hg
  have hcache : (s.expressions.get source).2 = cache := by
    rw [← Expression.Cache.snd_evaluate, he]
  exact hcache ▸ Expression.Cache.get?_get hg

/-- How the evaluation of bindings goes on after the first expression. -/
theorem evaluateBindings_cons_cases {binding : String × String} {bindings : List (String × String)}
    {r : Except Error (Fields Value)}
    (h : run (evaluateBindings (binding :: bindings)) s = (r, s')) :
    (∃ e, run (evaluate binding.2) s = (.error e, s') ∧ r = .error e) ∨
    ∃ value s₁, run (evaluate binding.2) s = (.ok value, s₁) ∧
      ((∃ e, run (evaluateBindings bindings) s₁ = (.error e, s') ∧ r = .error e) ∨
      ∃ values, run (evaluateBindings bindings) s₁ = (.ok values, s') ∧
        r = .ok ((binding.1, value) :: values)) := by
  rcases hv : run (evaluate binding.2) s with ⟨e | value, s₁⟩
  · cases (run_bind_error hv).symm.trans h
    exact .inl ⟨e, rfl, rfl⟩
  · have h := (run_bind_ok hv).symm.trans h
    rcases hb : run (evaluateBindings bindings) s₁ with ⟨e | values, s₂⟩
    · cases (run_bind_error hb).symm.trans h
      exact .inr ⟨value, s₁, rfl, .inl ⟨e, hb, rfl⟩⟩
    · cases (run_bind_ok hb).symm.trans h
      exact .inr ⟨value, s₁, rfl, .inr ⟨values, hb, rfl⟩⟩

theorem evaluateBindings_grows {bindings : List (String × String)}
    {r : Except Error (Fields Value)} (h : run (evaluateBindings bindings) s = (r, s')) :
    s.kept ≤ s'.kept := by
  induction bindings generalizing s r with
  | nil =>
    cases h
    exact le_rfl
  | cons binding bindings ih =>
    rcases evaluateBindings_cons_cases h with
      ⟨e, hv, -⟩ | ⟨value, s₁, hv, ⟨e, hb, -⟩ | ⟨values, hb, -⟩⟩
    · exact evaluate_grows hv
    · exact (evaluate_grows hv).trans (ih hb)
    · exact (evaluate_grows hv).trans (ih hb)

theorem run_load {settings : Settings} {name : String} {loader : Loader}
    (hl : settings.loader = some loader) {r : Except Error (String × Template)} {store : Store}
    (h : s.store.load loader settings.config.parseOptions name = (r, store)) :
    run (load settings name) s = (r, { s with store := store }) := by
  rw [run, load, hl]
  dsimp only
  rw [h]

theorem run_load_inv {settings : Settings} {name : String} {r : Except Error (String × Template)}
    (h : run (load settings name) s = (r, s')) :
    settings.loader = none ∧ r = .error (.resourceNotFound name) ∧ s' = s ∨
    ∃ loader store, settings.loader = some loader ∧
      s.store.load loader settings.config.parseOptions name = (r, store) ∧
      s' = { s with store := store } := by
  cases hl : settings.loader with
  | none =>
    rw [run, load, hl] at h
    cases h
    exact .inl ⟨rfl, rfl, rfl⟩
  | some loader =>
    rcases hr : s.store.load loader settings.config.parseOptions name with ⟨r', store⟩
    cases (run_load hl hr).symm.trans h
    exact .inr ⟨loader, store, rfl, hr, rfl⟩

theorem load_grows {settings : Settings} {name : String} {r : Except Error (String × Template)}
    (h : run (load settings name) s = (r, s')) : s.kept ≤ s'.kept := by
  rcases run_load_inv h with ⟨-, -, rfl⟩ | ⟨loader, store, -, hl, rfl⟩
  · exact le_rfl
  · exact ⟨fun _ _ h => h, fun key t ht => ⟨t, Store.get?_of_load hl ht, rfl, fun _ _ h => h⟩,
      fun _ _ h => h⟩

/-! ### Reading and the texts of static blocks -/

theorem run_evaluateBindings_inv {bindings : List (String × String)}
    {r : Except Error (Fields Value)} (h : run (evaluateBindings bindings) s = (r, s')) :
    ∃ cache, s' = { s with expressions := cache } := by
  induction bindings generalizing s r with
  | nil =>
    cases h
    exact ⟨_, rfl⟩
  | cons binding bindings ih =>
    rcases evaluateBindings_cons_cases h with ⟨e, hv, -⟩ | ⟨value, s₁, hv, hrest⟩
    · obtain ⟨operand, cache, -, -, rfl⟩ := run_evaluate_inv hv
      exact ⟨cache, rfl⟩
    · obtain ⟨operand, cache, -, -, rfl⟩ := run_evaluate_inv hv
      obtain ⟨r', hb⟩ : ∃ r', run (evaluateBindings bindings)
          { s with expressions := cache } = (r', s') :=
        hrest.elim (fun ⟨_, hb, _⟩ => ⟨_, hb⟩) fun ⟨_, hb, _⟩ => ⟨_, hb⟩
      obtain ⟨cache', hs'⟩ := ih hb
      exact ⟨cache', hs'⟩

theorem evaluate_resolved {source : String} {r : Except Error Value}
    (h : run (evaluate source) s = (r, s')) (holder : Holder) :
    s'.resolved holder = s.resolved holder := by
  obtain ⟨operand, cache, -, -, rfl⟩ := run_evaluate_inv h
  cases holder <;> rfl

theorem evaluateBindings_resolved {bindings : List (String × String)}
    {r : Except Error (Fields Value)} (h : run (evaluateBindings bindings) s = (r, s'))
    (holder : Holder) : s'.resolved holder = s.resolved holder := by
  obtain ⟨cache, rfl⟩ := run_evaluateBindings_inv h
  cases holder <;> rfl

theorem load_resolved {settings : Settings} {name : String}
    {r : Except Error (String × Template)} (h : run (load settings name) s = (r, s'))
    (holder : Holder) : s'.resolved holder = s.resolved holder := by
  rcases run_load_inv h with ⟨-, -, rfl⟩ | ⟨loader, store, -, hl, rfl⟩
  · rfl
  have hstore : store.resolved = s.store.resolved := by
    rcases Store.load_cases hl with ⟨t, -, -, rfl⟩ | ⟨hn, ⟨t, hread, -, rfl⟩ | ⟨e, -, -, rfl⟩⟩
    · rfl
    · obtain ⟨text, -, hread⟩ := bind_eq_ok hread
      rw [Store.readTemplate_inv hread]
      exact Store.resolved_insert hn t.blocks _
    · rfl
  cases holder with
  | own => rfl
  | stored key => exact congrFun hstore key

end

/-- A point that finishes has lost nothing of what was kept, whatever the result. -/
theorem Finishes.grows {settings : Settings} {p : Point} {r : Except Error String} {s' : State}
    (h : Finishes settings p r s') : p.state.kept ≤ s'.kept := by
  induction h with
  | text | staticResolved | inclusionCycle | inclusionDepth | nil | itemsNil | bindText | bindInline
  | bindInclusion | bindNil => exact le_rfl
  | inline hv | loopError hv | loopType hv | condError hv | condType hv | condFalse hv =>
    exact evaluate_grows hv
  | loop hv _ _ ih | condTrue hv _ _ ih => exact (evaluate_grows hv).trans ih
  | @static holder place l raw body text s s' _ _ ih =>
    exact le_trans ih ((s.reattach s').le_keep holder place text)
  | inclusionLoad _ _ hl => exact load_grows hl
  | inclusionBindings _ _ hl hb => exact (load_grows hl).trans (evaluateBindings_grows hb)
  | inclusion _ _ hl hb _ ih => exact ((load_grows hl).trans (evaluateBindings_grows hb)).trans ih
  | staticError _ _ ih | firstError _ ih | itemError _ ih | bindStatic _ ih | bindLoop _ ih
  | bindCond _ ih | bindFirstError _ ih => exact ih
  | next _ _ ih iht | items _ _ ih iht | bindNext _ _ ih iht => exact le_trans ih iht

theorem Point.grows {settings : Settings} {p : Point} {r : Except Error String} {s' : State}
    (h : p.run settings = (r, s')) (hp : p.Proper) : p.state.kept ≤ s'.kept :=
  (Point.finishes h hp).grows

/-! ## The same again -/

section

variable {settings : Settings} {s s' u : State}

/-- Where an expression is known as it is after an evaluation, the evaluation is the same. -/
theorem evaluate_of_get?_eq {source : String} {r : Except Error Value}
    (h : run (evaluate source) s = (r, s')) (hc : u.context = s.context)
    (hk : Fields.get? source u.expressions = Fields.get? source s'.expressions) :
    run (evaluate source) u = (r, u) := by
  obtain ⟨operand, cache, he, rfl, rfl⟩ := run_evaluate_inv h
  rw [← hc] at he
  exact run_evaluate (Expression.Cache.evaluate_again he hk)

/-- An expression that had a value has it again. -/
theorem evaluate_again {source : String} {value : Value}
    (h : run (evaluate source) s = (.ok value, s')) (hc : u.context = s.context)
    (hk : s'.kept ≤ u.kept) : run (evaluate source) u = (.ok value, u) := by
  refine evaluate_of_get?_eq h hc ?_
  obtain ⟨operand, cache, he, hr, rfl⟩ := run_evaluate_inv h
  rcases Expression.Cache.evaluate_inv he with ⟨e, hg, -⟩ | ⟨-, e, -, rfl⟩
  · exact (hk.expressions source e hg).trans hg.symm
  · cases hr

theorem evaluateBindings_again {bindings : List (String × String)} {values : Fields Value}
    (h : run (evaluateBindings bindings) s = (.ok values, s')) (hc : u.context = s.context)
    (hk : s'.kept ≤ u.kept) : run (evaluateBindings bindings) u = (.ok values, u) := by
  induction bindings generalizing s values with
  | nil =>
    cases h
    rfl
  | cons binding bindings ih =>
    rcases evaluateBindings_cons_cases h with
      ⟨e, -, hr⟩ | ⟨value, s₁, hv, ⟨e, -, hr⟩ | ⟨values', hb, hr⟩⟩
    · cases hr
    · cases hr
    · cases hr
      have hc₁ : u.context = s₁.context := hc.trans ((frames_evaluate _).context_eq hv).symm
      have hagain := evaluate_again hv hc ((evaluateBindings_grows hb).trans hk)
      exact (run_bind_ok hagain).trans (run_bind_ok (ih hb hc₁))

/-- A template that was loaded is stored. -/
theorem load_stored {name key : String} {t : Template}
    (h : run (load settings name) s = (.ok (key, t), s')) :
    (∃ loader, settings.loader = some loader ∧ loader.canonicalName name = key) ∧
      Fields.get? key s'.store.templates = some t := by
  rcases run_load_inv h with ⟨-, hr, -⟩ | ⟨loader, store, hloader, hl, rfl⟩
  · cases hr
  rcases Store.load_cases hl with ⟨t', ht', hr, rfl⟩ | ⟨-, ⟨t', -, hr, rfl⟩ | ⟨e, -, hr, -⟩⟩
  · cases hr
    exact ⟨⟨loader, hloader, rfl⟩, ht'⟩
  · cases hr
    refine ⟨⟨loader, hloader, rfl⟩, ?_⟩
    rw [Fields.get?_insert, if_pos rfl]
  · cases hr

/-- It is not loaded again, but may have more texts of static blocks then. -/
theorem load_again {name key : String} {t : Template}
    (h : run (load settings name) s = (.ok (key, t), s')) (hk : s'.kept ≤ u.kept) :
    ∃ t', run (load settings name) u = (.ok (key, t'), u) ∧ t'.blocks = t.blocks := by
  obtain ⟨⟨loader, hloader, rfl⟩, ht⟩ := load_stored h
  obtain ⟨t', ht', hb, -⟩ := hk.templates _ t ht
  exact ⟨t', run_load hloader (Store.load_of_get? ht'), hb⟩

/-- The second state has the context of the first one, and a chain that `R` relates to that of the
first one, so that what was begun in the first one may be begun again in the second one. -/
structure Resumes (R : List String → List String → Prop) (s u : State) : Prop where
  context : u.context = s.context
  chain : R s.chain u.chain

section

variable {R : List String → List String → Prop}

theorem Resumes.after {α : Type} {x : Render α} {r : Except Error α} (h : Resumes R s u)
    (hx : Frames x) (hr : run x s = (r, s')) : Resumes R s' u :=
  ⟨h.context.trans (hx.context_eq hr).symm, (hx.chain_eq hr).symm ▸ h.chain⟩

theorem Resumes.finishes {holder : Holder} {task : Task} {r : Except Error String}
    (h : Resumes R s u) (hf : Finishes settings ⟨holder, task, s⟩ r s') : Resumes R s' u :=
  h.after (Point.frames settings holder task) hf.run_eq

theorem Resumes.push (h : Resumes R s u) (bindings : Fields Value) :
    Resumes R (s.push bindings) (u.push bindings) :=
  ⟨congrArg (Context.push bindings) h.context, h.chain⟩

theorem Resumes.detach (h : Resumes R s u) : Resumes R s.detach u.detach := ⟨rfl, h.chain⟩

theorem Resumes.enter (h : Resumes R s u) (name : String) (bindings : Fields Value)
    (hR : R (name :: s.chain) (name :: u.chain)) :
    Resumes R (s.enter name bindings) (u.enter name bindings) :=
  ⟨congrArg (Context.push bindings) h.context, hR⟩

theorem Resumes.item {holder : Holder} {task : Task} {bindings : Fields Value}
    {r : Except Error String} (h : Resumes R s u)
    (hf : Finishes settings ⟨holder, task, s.push bindings⟩ r s') : Resumes R s'.pop u :=
  ⟨h.context.trans (congrArg Context.pop (Point.context_eq hf.run_eq)).symm,
    (Point.chain_eq hf.run_eq : s'.chain = s.chain).symm ▸ h.chain⟩

end

/-- A task that was begun in `s` is refused in `u`: the chain is another one there, and the task
fails. -/
def Refused (settings : Settings) (holder : Holder) (task : Task) (s u : State) : Prop :=
  u.chain ≠ s.chain ∧ ∃ e u', Finishes settings ⟨holder, task, u⟩ (.error e) u'

/-- What fails below a chain of the same length as before is refused. -/
theorem Refused.leads {holder holder' : Holder} {task task' : Task} {s₁ u₁ : State}
    (h : Refused settings holder' task' s₁ u₁) (hc : u.chain = s.chain → u₁.chain = s₁.chain)
    (hf : ∀ e u', Finishes settings ⟨holder', task', u₁⟩ (.error e) u' →
      ∃ u'', Finishes settings ⟨holder, task, u⟩ (.error e) u'') :
    Refused settings holder task s u := by
  obtain ⟨hne, e, u', h⟩ := h
  obtain ⟨u'', h⟩ := hf e u' h
  exact ⟨fun he => hne (hc he), e, u'', h⟩

/-- A point that had a text has it again, from every state that keeps what there was after it, and
does not change that state. Only in a longer chain it may be refused. -/
theorem Finishes.again_below {p : Point} {r : Except Error String} (h : Finishes settings p r s')
    (hp : p.state.kept.Has p.holder) {text : String} (hr : r = .ok text)
    (hu : Resumes List.Sublist p.state u) (hk : s'.kept ≤ u.kept) :
    Finishes settings ⟨p.holder, p.task, u⟩ r u ∨ Refused settings p.holder p.task p.state u := by
  induction h generalizing text u with
  | text => exact .inl .text
  | inline hv =>
    obtain ⟨value, rfl, -⟩ := Markup.map_eq_ok_iff.1 hr
    exact .inl (.inline (evaluate_again hv hu.context hk))
  | loop hv hi h ih =>
    have hagain := evaluate_again hv hu.context (h.grows.trans hk)
    have hc := (frames_evaluate _).chain_eq hv
    rcases ih (hp.mono (evaluate_grows hv)) hr (hu.after (frames_evaluate _) hv) hk with h | h
    · exact .inl (.loop hagain hi h)
    · exact .inr (h.leads (fun he => he.trans hc.symm) fun _ u' h => ⟨u', .loop hagain hi h⟩)
  | condTrue hv ht h ih =>
    have hagain := evaluate_again hv hu.context (h.grows.trans hk)
    have hc := (frames_evaluate _).chain_eq hv
    rcases ih (hp.mono (evaluate_grows hv)) hr (hu.after (frames_evaluate _) hv) hk with h | h
    · exact .inl (.condTrue hagain ht h)
    · exact .inr (h.leads (fun he => he.trans hc.symm) fun _ u' h => ⟨u', .condTrue hagain ht h⟩)
  | condFalse hv ht => exact .inl (.condFalse (evaluate_again hv hu.context hk) ht)
  | staticResolved hs => exact .inl (.staticResolved (State.resolved_of_le hk hs))
  | @static holder place l raw body text' s s' hs h ih =>
    -- The text was kept, or an older one was there already: it is found, and the body is not begun.
    have hhas : (s.reattach s').kept.Has holder := hp.mono h.grows
    obtain ⟨known, hknown⟩ := State.resolved_keep_self hhas place text'
    rw [hknown]
    exact .inl (.staticResolved (State.resolved_of_le hk hknown))
  | @inclusion holder place l resource attributes s s₁ s₂ s' key bindings r t hc hd hl hb h ih =>
    by_cases hc' : canonicalName settings resource ∈ u.chain
    · exact .inr ⟨fun he => hc (he ▸ hc'), _, _, .inclusionCycle hc'⟩
    by_cases hd' : settings.config.maxInclusionDepth ≤ u.chain.length
    · exact .inr ⟨fun he => Nat.not_le_of_lt hd (he ▸ hd'), _, _, .inclusionDepth hc' hd'⟩
    have hd' := Nat.lt_of_not_le hd'
    have hkept := h.grows.trans hk
    obtain ⟨t', hload, ht⟩ := load_again hl ((evaluateBindings_grows hb).trans hkept)
    have hu₁ := hu.after (frames_load _ _) hl
    have hbindings := evaluateBindings_again hb hu₁.context hkept
    have hu₂ := hu₁.after (frames_evaluateBindings _) hb
    have hhas : s₁.kept.Has (.stored key) := by
      rintro _ ⟨⟩
      exact Option.isSome_iff_exists.2 ⟨t, (load_stored hl).2⟩
    have hhas₂ : s₂.kept.Has (.stored key) := hhas.mono (evaluateBindings_grows hb)
    have hchain : s₂.chain = s.chain := ((frames_evaluateBindings _).chain_eq hb).trans
      ((frames_load _ _).chain_eq hl)
    have hin := hu₂.enter (canonicalName settings resource) bindings (hu₂.chain.cons_cons _)
    rcases ih hhas₂ hr hin hk with hagain | hagain
    · rw [← ht] at hagain
      exact .inl (.inclusion hc' hd' hload hbindings hagain)
    · rw [← ht] at hagain
      refine .inr (hagain.leads (fun he => ?_) fun _ u' h =>
        ⟨u'.leave, .inclusion hc' hd' hload hbindings h⟩)
      exact congrArg (List.cons _) (he.trans hchain.symm)
  | nil => exact .inl .nil
  | @next holder place index block blocks s s' s'' text' r h ht ih iht =>
    obtain ⟨rest, hrest, -⟩ := Markup.map_eq_ok_iff.1 hr
    rcases ih hp rfl hu (ht.grows.trans hk) with h' | h'
    · rcases iht (hp.mono h.grows) hrest (hu.finishes h) hk with ht' | ht'
      · exact .inl (.next h' ht')
      · have hc : s'.chain = s.chain := Point.chain_eq h.run_eq
        exact .inr (ht'.leads (fun he => he.trans hc.symm) fun e u' ht' => ⟨u', .next h' ht'⟩)
    · exact .inr (h'.leads id fun _ u' h' => ⟨u', .firstError h'⟩)
  | itemsNil => exact .inl .itemsNil
  | @items holder place variableName body item items s s' s'' text' r h ht ih iht =>
    obtain ⟨rest, hrest, -⟩ := Markup.map_eq_ok_iff.1 hr
    rcases ih hp rfl (hu.push _) (ht.grows.trans hk) with h' | h'
    · rcases iht (hp.mono h.grows) hrest (hu.item h) hk with ht' | ht'
      · exact .inl (.items h' ht')
      · have hc : s'.chain = s.chain := Point.chain_eq h.run_eq
        exact .inr (ht'.leads (fun he => he.trans hc.symm) fun e u' ht' => ⟨u', .items h' ht'⟩)
    · exact .inr (h'.leads id fun _ u' h' => ⟨u'.pop, .itemError h'⟩)
  | bindText => exact .inl .bindText
  | bindInline => exact .inl .bindInline
  | bindInclusion => exact .inl .bindInclusion
  | bindStatic h ih =>
    obtain ⟨text', hr', -⟩ := Markup.map_eq_ok_iff.1 hr
    rcases ih hp hr' hu hk with h | h
    · exact .inl (.bindStatic h)
    · exact .inr (h.leads id fun _ u' h => ⟨u', .bindStatic h⟩)
  | bindLoop h ih =>
    rcases ih hp hr hu hk with h | h
    · exact .inl (.bindLoop h)
    · exact .inr (h.leads id fun _ u' h => ⟨u', .bindLoop h⟩)
  | bindCond h ih =>
    rcases ih hp hr hu hk with h | h
    · exact .inl (.bindCond h)
    · exact .inr (h.leads id fun _ u' h => ⟨u', .bindCond h⟩)
  | bindNil => exact .inl .bindNil
  | @bindNext place index block blocks s s' s'' text' r h ht ih iht =>
    rcases ih hp rfl hu (ht.grows.trans hk) with h' | h'
    · rcases iht (hp.mono h.grows) hr (hu.finishes h) hk with ht' | ht'
      · exact .inl (.bindNext h' ht')
      · have hc : s'.chain = s.chain := Point.chain_eq h.run_eq
        exact .inr (ht'.leads (fun he => he.trans hc.symm) fun _ u' ht' => ⟨u', .bindNext h' ht'⟩)
    · exact .inr (h'.leads id fun _ u' h' => ⟨u', .bindFirstError h'⟩)
  | loopError | loopType | condError | condType | staticError | inclusionCycle | inclusionDepth
  | inclusionLoad | inclusionBindings | firstError | itemError | bindFirstError => cases hr

/-- In the same chain, a point that had a text has it again. -/
theorem Finishes.again {p : Point} {r : Except Error String} (h : Finishes settings p r s')
    (hp : p.state.kept.Has p.holder) {text : String} (hr : r = .ok text)
    (hu : Resumes Eq p.state u) (hk : s'.kept ≤ u.kept) :
    Finishes settings ⟨p.holder, p.task, u⟩ r u := by
  have hchain : u.chain = p.state.chain := hu.chain.symm
  rcases h.again_below hp hr ⟨hu.context, hchain ▸ List.Sublist.refl _⟩ hk with h | h
  · exact h
  · exact absurd hchain h.1

end

end Render

end Stencil
