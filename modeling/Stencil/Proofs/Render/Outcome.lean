import Stencil.Proofs.Render.Sound

/-!
# Outcomes

A point is `Ready` if what is kept is sound there and its task stands where it says. Every run keeps
what is kept sound and only ever adds to it (`Point.outcome`), and a text that the run of a stored
template returns is one that its task yields. The induction is over points; there is one lemma for
each kind of task.
-/

namespace Stencil.Render

open Markup (Block Attributes)

variable {settings : Settings}

/-! ## Points that can be run -/

/-- The task stands where it says in a tree, which is given by the bodies at its places. -/
def Located (bodyAt : Place → Option (List Block)) : Task → Prop
  | .block place block => bodyAt place = some block.body
  | .blocks place index blocks =>
    ∃ whole, bodyAt place = some whole ∧ whole.drop index = blocks
  | .loop place _ body _ => bodyAt place = some body
  | .bindBlock _ _ => False
  | .bindBlocks _ _ _ => False

/-- What is kept at a point is sound. The template that the task belongs to, if it is a stored one,
is in the store and has the task at its place. -/
structure Ready (settings : Settings) (p : Point) : Prop where
  sound : Sound settings p.state.store p.state.expressions
  stored : ∀ key, p.holder = .stored key →
    (Fields.get? key p.state.store.templates).isSome ∧ Located (settings.bodyAt key) p.task

/-- The outcome of a point keeps to what is sound. A stored template leaves the tree that the
rendering began with alone, and its text is one that the task yields. -/
structure Outcome (settings : Settings) (p : Point) (r : Except Error String) (s : State) :
    Prop where
  sound : Sound settings s.store s.expressions
  le : Store.Le p.state.store s.store
  cells : ∀ key, p.holder = .stored key → s.cells = p.state.cells
  yields : ∀ key text, p.holder = .stored key → r = .ok text →
    Yields settings s.store.resolved key p.state.context p.task text

theorem bodyIn_cons {root : List Block} {place : Place} {index : Nat} {block : Block}
    {blocks whole : List Block} (hb : Settings.bodyIn root place = some whole)
    (hw : whole.drop index = block :: blocks) :
    Settings.bodyIn root (index :: place) = some block.body ∧ whole.drop (index + 1) = blocks := by
  have hget : whole[index]? = some block := by
    rw [← List.head?_drop, hw]
    rfl
  constructor
  · rw [Settings.bodyIn, hb]
    simp [hget]
  · rw [← List.tail_drop, hw]
    rfl

theorem bodyAt_cons {key : String} {place : Place} {index : Nat} {block : Block}
    {blocks whole : List Block} (hb : settings.bodyAt key place = some whole)
    (hw : whole.drop index = block :: blocks) :
    settings.bodyAt key (index :: place) = some block.body ∧ whole.drop (index + 1) = blocks := by
  obtain ⟨root, hroot, hin⟩ := Option.bind_eq_some_iff.1 hb
  obtain ⟨hbody, hdrop⟩ := bodyIn_cons hin hw
  exact ⟨Option.bind_eq_some_iff.2 ⟨root, hroot, hbody⟩, hdrop⟩

theorem Ready.first {holder : Holder} {place : Place} {index : Nat} {block : Block}
    {blocks : List Block} {s : State}
    (hp : Ready settings ⟨holder, .blocks place index (block :: blocks), s⟩) :
    Ready settings ⟨holder, .block (index :: place) block, s⟩ := by
  refine ⟨hp.sound, ?_⟩
  intro key hk
  obtain ⟨hget, whole, hwhole, hdrop⟩ := hp.stored key hk
  exact ⟨hget, (bodyAt_cons hwhole hdrop).1⟩

theorem Ready.item {holder : Holder} {place : Place} {variableName : String} {body : List Block}
    {items : List Value} {s : State} (bindings : Fields Value)
    (hp : Ready settings ⟨holder, .loop place variableName body items, s⟩) :
    Ready settings ⟨holder, .blocks place 0 body, s.push bindings⟩ :=
  ⟨hp.sound, fun key hk => ⟨(hp.stored key hk).1, _, (hp.stored key hk).2, rfl⟩⟩

/-- What is ready stays so at the next points, as long as the outcomes in between are sound. -/
theorem Leads.ready {p q : Point} (h : Leads settings p q) (hp : Ready settings p)
    (ih : ∀ q, Leads settings p q → Ready settings q → ∀ r s, q.run settings = (r, s) →
      Outcome settings q r s) : Ready settings q := by
  have hs := hp.sound
  have hstored := hp.stored
  cases h with
  | loop hv hi =>
    obtain ⟨-, hr⟩ := evaluate_inv hs hv
    exact ⟨hr.sound, fun key hk => ⟨hr.le.templates key (hstored key hk).1, (hstored key hk).2⟩⟩
  | item => exact hp.item _
  | items h =>
    obtain ⟨hs', hle, -, -⟩ := ih _ .item (hp.item _) _ _ h
    exact ⟨hs', fun key hk => ⟨hle.templates key (hstored key hk).1, (hstored key hk).2⟩⟩
  | cond hv ht =>
    obtain ⟨-, hr⟩ := evaluate_inv hs hv
    exact ⟨hr.sound, fun key hk =>
      ⟨hr.le.templates key (hstored key hk).1, _, (hstored key hk).2, rfl⟩⟩
  | static h => exact ⟨hs, fun key hk => ⟨(hstored key hk).1, _, (hstored key hk).2, rfl⟩⟩
  | inclusion hc hd hl hb =>
    obtain ⟨⟨rfl, hblocks, hget⟩, hr⟩ := load_inv hs hl
    obtain ⟨-, hr'⟩ := evaluateBindings_inv hr.sound hb
    refine ⟨hr'.sound, ?_⟩
    intro key hk
    cases hk
    refine ⟨hr'.le.templates _ (Option.isSome_iff_exists.2 ⟨_, hget⟩), _, ?_, rfl⟩
    rw [Settings.bodyAt, hblocks]
    rfl
  | first => exact hp.first
  | next h =>
    have hfirst := ih _ .first hp.first _ _ h
    refine ⟨hfirst.sound, ?_⟩
    intro key hk
    obtain ⟨hget, whole, hwhole, hdrop⟩ := hstored key hk
    exact ⟨hfirst.le.templates key hget, whole, hwhole, (bodyAt_cons hwhole hdrop).2⟩
  | bindStatic => exact ⟨hs, nofun⟩
  | bindLoop => exact ⟨hs, nofun⟩
  | bindCond => exact ⟨hs, nofun⟩
  | bindFirst => exact ⟨hs, nofun⟩
  | bindNext h =>
    obtain ⟨hs', -, -, -⟩ := ih _ .bindFirst ⟨hs, nofun⟩ _ _ h
    exact ⟨hs', nofun⟩

/-! ## Outcomes -/

section

variable {holder : Holder} {place : Place} {index : Nat} {s s' : State} {r : Except Error String}

/-- An error after something was read. -/
theorem Reads.outcome {p : Point} {e : Error} (h : Reads settings p.state s') :
    Outcome settings p (.error e) s' :=
  ⟨h.sound, h.le, fun _ _ => h.cells, nofun⟩

/-- The outcome of a point at which something is read before the next point is begun. -/
theorem Outcome.of_reads {p q : Point} (hr : Reads settings p.state q.state)
    (hq : Outcome settings q r s') (hh : q.holder = p.holder)
    (hy : ∀ key text, p.holder = .stored key →
      Yields settings s'.store.resolved key p.state.context q.task text →
      Yields settings s'.store.resolved key p.state.context p.task text) :
    Outcome settings p r s' := by
  refine ⟨hq.sound, hr.le.trans hq.le, ?_, ?_⟩
  · intro key hk
    exact (hq.cells key (hh.trans hk)).trans hr.cells
  · intro key text hk ht
    refine hy key text hk ?_
    rw [← hr.context]
    exact hq.yields key text (hh.trans hk) ht

theorem outcome_inline {l : Markup.Location} {expression : String}
    (hs : Sound settings s.store s.expressions)
    (h : Point.run settings ⟨holder, .block place (.inline l expression), s⟩ = (r, s')) :
    Outcome settings ⟨holder, .block place (.inline l expression), s⟩ r s' := by
  rw [Point.run_inline] at h
  rcases hv : run (evaluate expression) s with ⟨r₁, s₁⟩
  obtain ⟨hvalue, hr⟩ := evaluate_inv hs hv
  rw [hv] at h
  cases h
  refine ⟨hr.sound, hr.le, fun _ _ => hr.cells, ?_⟩
  intro key text hk ht
  obtain ⟨value, hv', rfl⟩ := Markup.map_eq_ok_iff.1 ht
  exact .inline (hvalue.symm.trans hv')

theorem outcome_loop {l : Markup.Location} {variableName collection raw : String}
    {attributes : Attributes} {body : List Block}
    (hs : Sound settings s.store s.expressions)
    (next : ∀ q, Leads settings
      ⟨holder, .block place (.loop l variableName collection attributes raw body), s⟩ q →
      ∀ r s, q.run settings = (r, s) → Outcome settings q r s)
    (h : Point.run settings
      ⟨holder, .block place (.loop l variableName collection attributes raw body), s⟩ = (r, s')) :
    Outcome settings
      ⟨holder, .block place (.loop l variableName collection attributes raw body), s⟩ r s' := by
  rcases hv : run (evaluate collection) s with ⟨e | value, s₁⟩
  · cases (Point.run_loop_error hv).symm.trans h
    exact (evaluate_inv hs hv).2.outcome
  obtain ⟨hvalue, hr⟩ := evaluate_inv hs hv
  cases hi : elements collection value with
  | error e =>
    cases (Point.run_loop_type hv hi).symm.trans h
    exact hr.outcome
  | ok items =>
    have hq := next _ (.loop hv hi) r s' ((Point.run_loop hv hi).symm.trans h)
    exact .of_reads hr hq rfl fun key text _ hy => .loop hvalue.symm hi hy

theorem outcome_cond {l : Markup.Location} {condition raw : String} {attributes : Attributes}
    {body : List Block} (hs : Sound settings s.store s.expressions)
    (next : ∀ q, Leads settings
      ⟨holder, .block place (.cond l condition attributes raw body), s⟩ q →
      ∀ r s, q.run settings = (r, s) → Outcome settings q r s)
    (h : Point.run settings ⟨holder, .block place (.cond l condition attributes raw body), s⟩ =
      (r, s')) :
    Outcome settings ⟨holder, .block place (.cond l condition attributes raw body), s⟩ r s' := by
  rcases hv : run (evaluate condition) s with ⟨e | value, s₁⟩
  · cases (Point.run_cond_error hv).symm.trans h
    exact (evaluate_inv hs hv).2.outcome
  obtain ⟨hvalue, hr⟩ := evaluate_inv hs hv
  cases ht : truth condition value with
  | error e =>
    cases (Point.run_cond_type hv ht).symm.trans h
    exact hr.outcome
  | ok b =>
    cases b with
    | true =>
      have hq := next _ (.cond hv ht) r s' ((Point.run_cond_true hv ht).symm.trans h)
      exact .of_reads hr hq rfl fun key text _ hy => .condTrue hvalue.symm ht hy
    | false =>
      cases (Point.run_cond_false hv ht).symm.trans h
      refine ⟨hr.sound, hr.le, fun _ _ => hr.cells, ?_⟩
      intro key text hk hr
      cases hr
      exact .condFalse hvalue.symm ht

theorem outcome_static {l : Markup.Location} {raw : String} {body : List Block}
    (hp : Ready settings ⟨holder, .block place (.static l raw body), s⟩)
    (next : ∀ q, Leads settings ⟨holder, .block place (.static l raw body), s⟩ q →
      ∀ r s, q.run settings = (r, s) → Outcome settings q r s)
    (h : Point.run settings ⟨holder, .block place (.static l raw body), s⟩ = (r, s')) :
    Outcome settings ⟨holder, .block place (.static l raw body), s⟩ r s' := by
  obtain ⟨hs, hstored⟩ := hp
  cases hres : s.resolved holder place with
  | some text =>
    cases (Point.run_static_resolved hres).symm.trans h
    refine ⟨hs, Store.Le.refl _, fun _ _ => rfl, ?_⟩
    intro key text' hk ht
    cases hk
    cases ht
    obtain ⟨body', hb, hy⟩ := hs.statics key place text hres
    cases hb.symm.trans (hstored key rfl).2
    exact .static hres hy
  | none =>
    rcases hb : Point.run settings ⟨holder, .blocks place 0 body, s.detach⟩ with ⟨e | text, s₁⟩
    · have hq := next _ (.static hres) _ _ hb
      cases (Point.run_static_error hres hb).symm.trans h
      exact ⟨hq.sound, hq.le, hq.cells, nofun⟩
    · have hq := next _ (.static hres) _ _ hb
      cases (Point.run_static hres hb).symm.trans h
      cases holder with
      | own => exact ⟨hq.sound, hq.le, nofun, nofun⟩
      | stored key =>
        have hy := hq.yields key text rfl rfl
        have hkeep := hq.sound.keep (hstored key rfl).2 hy
        have hle := s₁.store.le_keep key place text
        refine ⟨hkeep, hq.le.trans hle, hq.cells, ?_⟩
        intro key' text' hk ht
        cases hk
        obtain ⟨known, hknown⟩ := Store.resolved_keep_self (hq.le.templates key (hstored key rfl).1)
          place text
        have hr : ((s₁.store.keep key place text).resolved key place).getD text = text' :=
          Except.ok.inj ht
        rw [hknown] at hr
        subst hr
        obtain ⟨body', hb', hy'⟩ := hkeep.statics key place known hknown
        cases hb'.symm.trans (hstored key rfl).2
        exact .static hknown hy'

theorem outcome_inclusion {l : Markup.Location} {resource : String} {attributes : Attributes}
    (hs : Sound settings s.store s.expressions)
    (next : ∀ q, Leads settings ⟨holder, .block place (.inclusion l resource attributes), s⟩ q →
      ∀ r s, q.run settings = (r, s) → Outcome settings q r s)
    (h : Point.run settings ⟨holder, .block place (.inclusion l resource attributes), s⟩ =
      (r, s')) :
    Outcome settings ⟨holder, .block place (.inclusion l resource attributes), s⟩ r s' := by
  by_cases hc : canonicalName settings resource ∈ s.chain
  · cases (Point.run_inclusion_of_mem hc).symm.trans h
    exact (Reads.refl hs).outcome
  by_cases hd : settings.config.maxInclusionDepth ≤ s.chain.length
  · cases (Point.run_inclusion_of_le hc hd).symm.trans h
    exact (Reads.refl hs).outcome
  have hd := Nat.lt_of_not_le hd
  rcases hl : run (load settings (canonicalName settings resource)) s with ⟨e | ⟨key, t⟩, s₁⟩
  · cases (Point.run_inclusion_load hc hd hl).symm.trans h
    exact (load_inv hs hl).2.outcome
  obtain ⟨⟨rfl, hblocks, -⟩, hr⟩ := load_inv hs hl
  rcases hb : run (evaluateBindings (Block.bindings attributes)) s₁ with ⟨e | bindings, s₂⟩
  · cases (Point.run_inclusion_bindings hc hd hl hb).symm.trans h
    exact (hr.trans (evaluateBindings_inv hr.sound hb).2).outcome
  · have hq := next _ (.inclusion hc hd hl hb) _ _ rfl
    cases (Point.run_inclusion hc hd hl hb).symm.trans h
    obtain ⟨hvalues, hr'⟩ := evaluateBindings_inv hr.sound hb
    rw [hr.context] at hvalues
    have hr := hr.trans hr'
    refine ⟨hq.sound, hr.le.trans hq.le, fun _ _ => (hq.cells _ rfl).trans hr.cells,
      fun key text hk ht => ?_⟩
    have hy := hq.yields _ text rfl ht
    rw [show State.context _ = s.context.push bindings from
      congrArg (Context.push bindings) hr.context] at hy
    exact .inclusion hblocks hvalues.symm hy

theorem outcome_blocks {block : Block} {blocks : List Block}
    (next : ∀ q, Leads settings ⟨holder, .blocks place index (block :: blocks), s⟩ q →
      ∀ r s, q.run settings = (r, s) → Outcome settings q r s)
    (h : Point.run settings ⟨holder, .blocks place index (block :: blocks), s⟩ = (r, s')) :
    Outcome settings ⟨holder, .blocks place index (block :: blocks), s⟩ r s' := by
  rcases hf : Point.run settings ⟨holder, .block (index :: place) block, s⟩ with ⟨e | text, s₁⟩
  · have hq := next _ .first _ _ hf
    cases (Point.run_blocks_error hf).symm.trans h
    exact ⟨hq.sound, hq.le, hq.cells, nofun⟩
  · have hq := next _ .first _ _ hf
    have hq' := next _ (.next hf) _ _ rfl
    cases (Point.run_blocks_cons hf).symm.trans h
    refine ⟨hq'.sound, hq.le.trans hq'.le,
      fun key hk => (hq'.cells key hk).trans (hq.cells key hk), fun key text' hk ht => ?_⟩
    obtain ⟨rest, hrest, rfl⟩ := Markup.map_eq_ok_iff.1 ht
    have hy := hq'.yields key rest hk hrest
    rw [Point.context_eq hf] at hy
    exact .cons ((hq.yields key text hk rfl).mono hq'.le.resolved) hy

theorem outcome_items {variableName : String} {body : List Block} {item : Value}
    {items : List Value}
    (next : ∀ q, Leads settings ⟨holder, .loop place variableName body (item :: items), s⟩ q →
      ∀ r s, q.run settings = (r, s) → Outcome settings q r s)
    (h : Point.run settings ⟨holder, .loop place variableName body (item :: items), s⟩ = (r, s')) :
    Outcome settings ⟨holder, .loop place variableName body (item :: items), s⟩ r s' := by
  rcases hf : Point.run settings ⟨holder, .blocks place 0 body, s.push [(variableName, item)]⟩ with
    ⟨e | text, s₁⟩
  · have hq := next _ .item _ _ hf
    cases (Point.run_items_error hf).symm.trans h
    exact ⟨hq.sound, hq.le, hq.cells, nofun⟩
  · have hq := next _ .item _ _ hf
    have hq' := next _ (.items hf) _ _ rfl
    cases (Point.run_items hf).symm.trans h
    refine ⟨hq'.sound, hq.le.trans hq'.le,
      fun key hk => (hq'.cells key hk).trans (hq.cells key hk), fun key text' hk ht => ?_⟩
    obtain ⟨rest, hrest, rfl⟩ := Markup.map_eq_ok_iff.1 ht
    have hy := hq'.yields key rest hk hrest
    have hc : s₁.pop.context = s.context := congrArg Context.pop (Point.context_eq hf)
    rw [hc] at hy
    exact .itemsCons ((hq.yields key text hk rfl).mono hq'.le.resolved) hy

theorem outcome_bindBlock {block : Block} (hs : Sound settings s.store s.expressions)
    (next : ∀ q, Leads settings ⟨.own, .bindBlock place block, s⟩ q →
      ∀ r s, q.run settings = (r, s) → Outcome settings q r s)
    (h : Point.run settings ⟨.own, .bindBlock place block, s⟩ = (r, s')) :
    Outcome settings ⟨.own, .bindBlock place block, s⟩ r s' := by
  cases block with
  | static l raw body =>
    have hq := next _ .bindStatic _ _ rfl
    rw [Point.run_bindStatic] at h
    cases h
    exact ⟨hq.sound, hq.le, nofun, nofun⟩
  | loop l variableName collection attributes raw body =>
    have hq := next _ .bindLoop r s' h
    exact ⟨hq.sound, hq.le, nofun, nofun⟩
  | cond l condition attributes raw body =>
    have hq := next _ .bindCond r s' h
    exact ⟨hq.sound, hq.le, nofun, nofun⟩
  | text | inline | inclusion =>
    cases h
    exact ⟨hs, Store.Le.refl _, fun _ _ => rfl, nofun⟩

theorem outcome_bindBlocks {blocks : List Block} (hs : Sound settings s.store s.expressions)
    (next : ∀ q, Leads settings ⟨.own, .bindBlocks place index blocks, s⟩ q →
      ∀ r s, q.run settings = (r, s) → Outcome settings q r s)
    (h : Point.run settings ⟨.own, .bindBlocks place index blocks, s⟩ = (r, s')) :
    Outcome settings ⟨.own, .bindBlocks place index blocks, s⟩ r s' := by
  cases blocks with
  | nil =>
    cases h
    exact ⟨hs, Store.Le.refl _, fun _ _ => rfl, nofun⟩
  | cons block blocks =>
    rcases hf : Point.run settings ⟨.own, .bindBlock (index :: place) block, s⟩ with
      ⟨e | text, s₁⟩
    · have hq := next _ .bindFirst _ _ hf
      cases (Point.run_bindBlocks_error hf).symm.trans h
      exact ⟨hq.sound, hq.le, nofun, nofun⟩
    · have hq := next _ .bindFirst _ _ hf
      have hq' := next _ (.bindNext hf) r s' ((Point.run_bindBlocks_cons hf).symm.trans h)
      exact ⟨hq'.sound, hq.le.trans hq'.le, nofun, nofun⟩

end

/-- Whatever the outcome of a point, what is kept stays sound and nothing of it is lost. A text is
one that the task yields. -/
theorem Point.outcome (p : Point) (hp : Ready settings p) (r : Except Error String) (s' : State)
    (h : p.run settings = (r, s')) : Outcome settings p r s' := by
  induction p using Point.induction settings generalizing r s' with
  | step p ih =>
    have next : ∀ q, Leads settings p q → ∀ r s, q.run settings = (r, s) →
        Outcome settings q r s := fun q hq => ih q hq (hq.ready hp ih)
    obtain ⟨holder, task, s⟩ := p
    cases task with
    | block place block =>
      cases block with
      | text l content =>
        cases h
        refine ⟨hp.sound, Store.Le.refl _, fun _ _ => rfl, ?_⟩
        intro key text hk ht
        cases ht
        exact .text
      | inline l expression => exact outcome_inline hp.sound h
      | loop l variableName collection attributes raw body => exact outcome_loop hp.sound next h
      | cond l condition attributes raw body => exact outcome_cond hp.sound next h
      | static l raw body => exact outcome_static hp next h
      | inclusion l resource attributes => exact outcome_inclusion hp.sound next h
    | blocks place index blocks =>
      cases blocks with
      | nil =>
        cases h
        refine ⟨hp.sound, Store.Le.refl _, fun _ _ => rfl, ?_⟩
        intro key text hk ht
        cases ht
        exact .nil
      | cons block blocks => exact outcome_blocks next h
    | loop place variableName body items =>
      cases items with
      | nil =>
        cases h
        refine ⟨hp.sound, Store.Le.refl _, fun _ _ => rfl, ?_⟩
        intro key text hk ht
        cases ht
        exact .itemsNil
      | cons item items => exact outcome_items next h
    | bindBlock place block =>
      cases holder with
      | stored key => exact absurd (hp.stored key rfl).2 id
      | own => exact outcome_bindBlock hp.sound next h
    | bindBlocks place index blocks =>
      cases holder with
      | stored key => exact absurd (hp.stored key rfl).2 id
      | own => exact outcome_bindBlocks hp.sound next h

end Stencil.Render
