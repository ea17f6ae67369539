import Stencil.Proofs.Render.Known

/-!
# Runs that find more texts kept

Two runs of the same task are compared: the second one finds the texts that the first one finds, and
some more of stored templates (`Ahead`). Where the second one takes a kept text and the first one
has to render the body, the first one may be refused an inclusion that the second one need not make.
Apart from that the two runs cannot be told apart (`Point.follows`): the results are the same, or
the first one fails in such a body with an error of the chain (`Masked`).
-/

namespace Stencil.Render

open Markup (Block Attributes)

variable {settings : Settings} {base : Store}

/-! ## States with more texts -/

/-- The second state has the texts of the first one, and besides them only texts of `base`. -/
structure Ahead (base : Store) (s u : State) : Prop where
  context : u.context = s.context
  chain : u.chain = s.chain
  cells : u.cells = s.cells
  kept : KeptIn s.store u.store.resolved
  origin : ∀ key place text, u.store.resolved key place = some text →
    s.store.resolved key place = some text ∨ base.resolved key place = some text

/-- Both states may go on to others with the same texts. -/
theorem Ahead.reads {s s' u u' : State} (h : Ahead base s u) (hs : Reads settings s s')
    (hu : Reads settings u u') : Ahead base s' u' := by
  refine ⟨hu.context.trans (h.context.trans hs.context.symm),
    hu.chain.trans (h.chain.trans hs.chain.symm), hu.cells.trans (h.cells.trans hs.cells.symm),
    fun key place text hk => ?_, fun key place text hk => ?_⟩
  · rw [hs.resolved] at hk
    rw [hu.resolved]
    exact h.kept key place text hk
  · rw [hu.resolved] at hk
    rw [hs.resolved]
    exact h.origin key place text hk

theorem Ahead.push {s u : State} (h : Ahead base s u) (bindings : Fields Value) :
    Ahead base (s.push bindings) (u.push bindings) :=
  ⟨congrArg (Context.push bindings) h.context, h.chain, h.cells, h.kept, h.origin⟩

theorem Ahead.pop {s u : State} (h : Ahead base s u) : Ahead base s.pop u.pop :=
  ⟨congrArg Context.pop h.context, h.chain, h.cells, h.kept, h.origin⟩

theorem Ahead.detach {s u : State} (h : Ahead base s u) : Ahead base s.detach u.detach :=
  ⟨rfl, h.chain, h.cells, h.kept, h.origin⟩

theorem Ahead.reattach {s s' u u' : State} (h : Ahead base s u) (h' : Ahead base s' u') :
    Ahead base (s.reattach s') (u.reattach u') :=
  ⟨h.context, h.chain, h'.cells, h'.kept, h'.origin⟩

theorem Ahead.enter {s u : State} (h : Ahead base s u) (name : String)
    (bindings : Fields Value) : Ahead base (s.enter name bindings) (u.enter name bindings) :=
  ⟨congrArg (Context.push bindings) h.context, congrArg (List.cons name) h.chain, h.cells, h.kept,
    h.origin⟩

theorem Ahead.leave {s u : State} (h : Ahead base s u) : Ahead base s.leave u.leave :=
  ⟨congrArg Context.pop h.context, congrArg List.tail h.chain, h.cells, h.kept, h.origin⟩

theorem Ahead.keep_own {s u : State} (h : Ahead base s u) (place : Place) (text : String) :
    Ahead base (s.keep .own place text) (u.keep .own place text) :=
  ⟨h.context, h.chain, congrArg (Cells.keep place text) h.cells, h.kept, h.origin⟩

/-- A text that both states get. If only the second one has a text already, it is the same. -/
theorem Ahead.keep_stored {s u : State} (h : Ahead base s u) {key : String} {place : Place}
    {text : String} (hs : (Fields.get? key s.store.templates).isSome)
    (hu : (Fields.get? key u.store.templates).isSome)
    (hsame : ∀ text', u.store.resolved key place = some text' →
      s.store.resolved key place = none → text' = text) :
    Ahead base (s.keep (.stored key) place text) (u.keep (.stored key) place text) := by
  obtain ⟨t, ht⟩ := Option.isSome_iff_exists.1 hs
  obtain ⟨t', ht'⟩ := Option.isSome_iff_exists.1 hu
  refine ⟨h.context, h.chain, h.cells, ?_, ?_⟩
  · intro other p v hv
    show (u.store.keep key place text).resolved other p = some v
    rcases Store.resolved_keep_inv ht hv with hold | ⟨hnone, rfl, rfl, rfl⟩
    · exact (u.store.le_keep key place text).resolved other p v (h.kept other p v hold)
    · cases hres : u.store.resolved other p with
      | none =>
        rw [Store.resolved_keep ht', hres]
        simp
      | some v' =>
        obtain rfl := hsame v' hres hnone
        exact (u.store.le_keep other p v').resolved other p v' hres
  · intro other p v hv
    show (s.store.keep key place text).resolved other p = some v ∨ _
    rcases Store.resolved_keep_inv ht' hv with hold | ⟨hnone, rfl, rfl, rfl⟩
    · refine (h.origin other p v hold).imp_left ?_
      exact (s.store.le_keep key place text).resolved other p v
    · have hs : s.store.resolved other p = none := by
        apply Option.eq_none_iff_forall_ne_some.2
        intro v' hv'
        cases hnone.symm.trans (h.kept other p v' hv')
      rw [Store.resolved_keep ht, hs]
      simp

/-! ## Reading from both states -/

section

variable {s s₁ u : State} (h : Ahead base s u) (hs : Sound settings s.store s.expressions)
  (hu : Sound settings u.store u.expressions)

include h hs hu

theorem Ahead.evaluate {source : String} {r : Except Error Value}
    (hr : run (evaluate source) s = (r, s₁)) :
    ∃ u₁, run (Render.evaluate source) u = (r, u₁) ∧ Ahead base s₁ u₁ := by
  rcases hw : run (Render.evaluate source) u with ⟨r', u₁⟩
  obtain ⟨rfl, hs₁⟩ := evaluate_inv hs hr
  obtain ⟨rfl, hu₁⟩ := evaluate_inv hu hw
  exact ⟨u₁, by rw [h.context], h.reads hs₁ hu₁⟩

theorem Ahead.evaluateBindings {bindings : List (String × String)}
    {r : Except Error (Fields Value)} (hr : run (evaluateBindings bindings) s = (r, s₁)) :
    ∃ u₁, run (Render.evaluateBindings bindings) u = (r, u₁) ∧ Ahead base s₁ u₁ := by
  rcases hw : run (Render.evaluateBindings bindings) u with ⟨r', u₁⟩
  obtain ⟨rfl, hs₁⟩ := evaluateBindings_inv hs hr
  obtain ⟨rfl, hu₁⟩ := evaluateBindings_inv hu hw
  exact ⟨u₁, by rw [h.context], h.reads hs₁ hu₁⟩

theorem Ahead.load_error {name : String} {e : Error}
    (hr : run (load settings name) s = (.error e, s₁)) :
    ∃ u₁, run (load settings name) u = (.error e, u₁) ∧ Ahead base s₁ u₁ := by
  obtain ⟨hload, hs₁⟩ := load_inv hs hr
  rcases hw : run (load settings name) u with ⟨e' | ⟨key, t⟩, u₁⟩
  · obtain ⟨hload', hu₁⟩ := load_inv hu hw
    cases hload.symm.trans hload'
    exact ⟨u₁, rfl, h.reads hs₁ hu₁⟩
  · obtain ⟨⟨rfl, hload', -⟩, -⟩ := load_inv hu hw
    cases hload.symm.trans hload'

theorem Ahead.load {name key : String} {t : Template}
    (hr : run (load settings name) s = (.ok (key, t), s₁)) :
    ∃ t' u₁, run (Render.load settings name) u = (.ok (key, t'), u₁) ∧ t'.blocks = t.blocks ∧
      Ahead base s₁ u₁ := by
  obtain ⟨⟨rfl, hload, -⟩, hs₁⟩ := load_inv hs hr
  rcases hw : run (Render.load settings name) u with ⟨e | ⟨key, t'⟩, u₁⟩
  · obtain ⟨hload', -⟩ := load_inv hu hw
    cases hload.symm.trans hload'
  · obtain ⟨⟨rfl, hload', -⟩, hu₁⟩ := load_inv hu hw
    exact ⟨t', u₁, rfl, Except.ok.inj (hload'.symm.trans hload), h.reads hs₁ hu₁⟩

end

/-! ## Masked errors -/

/-- The run of a point comes to a static block of a stored template that has no text there, although
`base` has one for it, and fails in its body with an error of the chain. -/
def Masked (settings : Settings) (base : Store) (p : Point) (e : Error) : Prop :=
  e.OfChain ∧ ∃ key place l raw body s text,
    Passes settings p ⟨.stored key, .block place (.static l raw body), s⟩ ∧
      s.store.resolved key place = none ∧ base.resolved key place = some text ∧
      (Point.run settings ⟨.stored key, .block place (.static l raw body), s⟩).1 = .error e

theorem Masked.leads {p q : Point} {e : Error} (h : Leads settings p q)
    (hm : Masked settings base q e) : Masked settings base p e := by
  obtain ⟨hc, key, place, l, raw, body, s, text, hp, hrest⟩ := hm
  exact ⟨hc, key, place, l, raw, body, s, text, .head h hp, hrest⟩

/-- The outcomes of a point in two states: the same result, or an error that the second state
masks. -/
def Follows (settings : Settings) (base : Store) (p : Point) (a b : Except Error String × State) :
    Prop :=
  b.1 = a.1 ∧ Ahead base a.2 b.2 ∨ ∃ e, a.1 = .error e ∧ Masked settings base p e

/-- The outcome of a point is followed from every state that is ahead of its own. -/
def Simulates (settings : Settings) (base : Store) (p : Point) : Prop :=
  ∀ u, Ready settings ⟨p.holder, p.task, u⟩ → Ahead base p.state u →
    Follows settings base p (p.run settings) (Point.run settings ⟨p.holder, p.task, u⟩)

section

variable {p q : Point} {a b : Except Error String × State}

theorem Follows.leads (h : Leads settings p q) (hf : Follows settings base q a b) :
    Follows settings base p a b := by
  rcases hf with hsame | ⟨e, he, hm⟩
  · exact .inl hsame
  · exact .inr ⟨e, he, hm.leads h⟩

theorem Follows.map (hf : Follows settings base p a b) (f : String → String) :
    Follows settings base p (a.1.map f, a.2) (b.1.map f, b.2) := by
  rcases hf with ⟨hr, hs⟩ | ⟨e, he, hm⟩
  · exact .inl ⟨congrArg (Except.map f) hr, hs⟩
  · exact .inr ⟨e, congrArg (Except.map f) he, hm⟩

theorem Follows.leave (hf : Follows settings base p a b) :
    Follows settings base p (a.1, a.2.leave) (b.1, b.2.leave) := by
  rcases hf with ⟨hr, hs⟩ | hm
  · exact .inl ⟨hr, hs.leave⟩
  · exact .inr hm

end

/-! ## One run follows the other -/

section

variable {holder : Holder} {place : Place} {index : Nat} {s u : State}

theorem follows_inline {l : Markup.Location} {expression : String}
    (hs : Sound settings s.store s.expressions) (hu : Sound settings u.store u.expressions)
    (h : Ahead base s u) :
    Follows settings base ⟨holder, .block place (.inline l expression), s⟩
      (Point.run settings ⟨holder, .block place (.inline l expression), s⟩)
      (Point.run settings ⟨holder, .block place (.inline l expression), u⟩) := by
  rcases hv : run (evaluate expression) s with ⟨r, s₁⟩
  obtain ⟨u₁, hw, h₁⟩ := h.evaluate hs hu hv
  rw [Point.run_inline, Point.run_inline, hv, hw]
  exact .inl ⟨rfl, h₁⟩

theorem follows_loop {l : Markup.Location} {variableName collection raw : String}
    {attributes : Attributes} {body : List Block}
    (next : ∀ q, Leads settings
      ⟨holder, .block place (.loop l variableName collection attributes raw body), s⟩ q →
      Simulates settings base q)
    (hs : Sound settings s.store s.expressions)
    (hu : Ready settings
      ⟨holder, .block place (.loop l variableName collection attributes raw body), u⟩)
    (h : Ahead base s u) :
    Follows settings base
      ⟨holder, .block place (.loop l variableName collection attributes raw body), s⟩
      (Point.run settings
        ⟨holder, .block place (.loop l variableName collection attributes raw body), s⟩)
      (Point.run settings
        ⟨holder, .block place (.loop l variableName collection attributes raw body), u⟩) := by
  rcases hv : run (evaluate collection) s with ⟨r, s₁⟩
  obtain ⟨u₁, hw, h₁⟩ := h.evaluate hs hu.sound hv
  cases r with
  | error e =>
    rw [Point.run_loop_error hv, Point.run_loop_error hw]
    exact .inl ⟨rfl, h₁⟩
  | ok value =>
    cases hi : elements collection value with
    | error e =>
      rw [Point.run_loop_type hv hi, Point.run_loop_type hw hi]
      exact .inl ⟨rfl, h₁⟩
    | ok items =>
      rw [Point.run_loop hv hi, Point.run_loop hw hi]
      exact (next _ (.loop hv hi) u₁ ((Leads.loop hw hi).ready_next hu) h₁).leads (.loop hv hi)

theorem follows_cond {l : Markup.Location} {condition raw : String} {attributes : Attributes}
    {body : List Block}
    (next : ∀ q, Leads settings
      ⟨holder, .block place (.cond l condition attributes raw body), s⟩ q →
      Simulates settings base q)
    (hs : Sound settings s.store s.expressions)
    (hu : Ready settings ⟨holder, .block place (.cond l condition attributes raw body), u⟩)
    (h : Ahead base s u) :
    Follows settings base ⟨holder, .block place (.cond l condition attributes raw body), s⟩
      (Point.run settings ⟨holder, .block place (.cond l condition attributes raw body), s⟩)
      (Point.run settings ⟨holder, .block place (.cond l condition attributes raw body), u⟩) := by
  rcases hv : run (evaluate condition) s with ⟨r, s₁⟩
  obtain ⟨u₁, hw, h₁⟩ := h.evaluate hs hu.sound hv
  cases r with
  | error e =>
    rw [Point.run_cond_error hv, Point.run_cond_error hw]
    exact .inl ⟨rfl, h₁⟩
  | ok value =>
    cases ht : truth condition value with
    | error e =>
      rw [Point.run_cond_type hv ht, Point.run_cond_type hw ht]
      exact .inl ⟨rfl, h₁⟩
    | ok b =>
      cases b with
      | true =>
        rw [Point.run_cond_true hv ht, Point.run_cond_true hw ht]
        exact (next _ (.cond hv ht) u₁ ((Leads.cond hw ht).ready_next hu) h₁).leads (.cond hv ht)
      | false =>
        rw [Point.run_cond_false hv ht, Point.run_cond_false hw ht]
        exact .inl ⟨rfl, h₁⟩

theorem follows_inclusion {l : Markup.Location} {resource : String} {attributes : Attributes}
    (next : ∀ q, Leads settings ⟨holder, .block place (.inclusion l resource attributes), s⟩ q →
      Simulates settings base q)
    (hs : Sound settings s.store s.expressions)
    (hu : Ready settings ⟨holder, .block place (.inclusion l resource attributes), u⟩)
    (h : Ahead base s u) :
    Follows settings base ⟨holder, .block place (.inclusion l resource attributes), s⟩
      (Point.run settings ⟨holder, .block place (.inclusion l resource attributes), s⟩)
      (Point.run settings ⟨holder, .block place (.inclusion l resource attributes), u⟩) := by
  by_cases hc : canonicalName settings resource ∈ s.chain
  · rw [Point.run_inclusion_of_mem hc, Point.run_inclusion_of_mem (h.chain ▸ hc), h.chain]
    exact .inl ⟨rfl, h⟩
  have hcu : canonicalName settings resource ∉ u.chain := h.chain ▸ hc
  by_cases hd : settings.config.maxInclusionDepth ≤ s.chain.length
  · rw [Point.run_inclusion_of_le hc hd, Point.run_inclusion_of_le hcu (h.chain ▸ hd)]
    exact .inl ⟨rfl, h⟩
  have hd := Nat.lt_of_not_le hd
  have hdu : u.chain.length < settings.config.maxInclusionDepth := h.chain ▸ hd
  rcases hl : run (load settings (canonicalName settings resource)) s with ⟨e | ⟨key, t⟩, s₁⟩
  · obtain ⟨u₁, hlu, h₁⟩ := h.load_error hs hu.sound hl
    rw [Point.run_inclusion_load hc hd hl, Point.run_inclusion_load hcu hdu hlu]
    exact .inl ⟨rfl, h₁⟩
  obtain ⟨t', u₁, hlu, ht, h₁⟩ := h.load hs hu.sound hl
  have hs₁ := (load_inv hs hl).2.sound
  have hu₁ := (load_inv hu.sound hlu).2.sound
  rcases hb : run (evaluateBindings (Block.bindings attributes)) s₁ with ⟨e | bindings, s₂⟩
  · obtain ⟨u₂, hbu, h₂⟩ := h₁.evaluateBindings hs₁ hu₁ hb
    rw [Point.run_inclusion_bindings hc hd hl hb, Point.run_inclusion_bindings hcu hdu hlu hbu]
    exact .inl ⟨rfl, h₂⟩
  · obtain ⟨u₂, hbu, h₂⟩ := h₁.evaluateBindings hs₁ hu₁ hb
    rw [Point.run_inclusion hc hd hl hb, Point.run_inclusion hcu hdu hlu hbu]
    have hq := (Leads.inclusion hcu hdu hlu hbu).ready_next hu
    rw [ht] at hq ⊢
    have hf := next _ (.inclusion hc hd hl hb) _ hq (h₂.enter _ bindings)
    exact (hf.leads (.inclusion hc hd hl hb)).leave

theorem follows_blocks {block : Block} {blocks : List Block}
    (next : ∀ q, Leads settings ⟨holder, .blocks place index (block :: blocks), s⟩ q →
      Simulates settings base q)
    (hu : Ready settings ⟨holder, .blocks place index (block :: blocks), u⟩)
    (h : Ahead base s u) :
    Follows settings base ⟨holder, .blocks place index (block :: blocks), s⟩
      (Point.run settings ⟨holder, .blocks place index (block :: blocks), s⟩)
      (Point.run settings ⟨holder, .blocks place index (block :: blocks), u⟩) := by
  have hfirst := next _ .first u (Leads.first.ready_next hu) h
  rcases hf : Point.run settings ⟨holder, .block (index :: place) block, s⟩ with ⟨r, s₁⟩
  rcases hg : Point.run settings ⟨holder, .block (index :: place) block, u⟩ with ⟨r', u₁⟩
  rw [hf, hg] at hfirst
  rcases hfirst with ⟨hr, h₁⟩ | ⟨e, he, hm⟩
  · cases hr
    cases r with
    | error e =>
      rw [Point.run_blocks_error hf, Point.run_blocks_error hg]
      exact .inl ⟨rfl, h₁⟩
    | ok text =>
      rw [Point.run_blocks_cons hf, Point.run_blocks_cons hg]
      have hn := next _ (.next hf) u₁ ((Leads.next hg).ready_next hu) h₁
      exact (hn.leads (.next hf)).map (text ++ ·)
  · cases he
    rw [Point.run_blocks_error hf]
    exact .inr ⟨e, rfl, hm.leads .first⟩

theorem follows_items {variableName : String} {body : List Block} {item : Value}
    {items : List Value}
    (next : ∀ q, Leads settings ⟨holder, .loop place variableName body (item :: items), s⟩ q →
      Simulates settings base q)
    (hu : Ready settings ⟨holder, .loop place variableName body (item :: items), u⟩)
    (h : Ahead base s u) :
    Follows settings base ⟨holder, .loop place variableName body (item :: items), s⟩
      (Point.run settings ⟨holder, .loop place variableName body (item :: items), s⟩)
      (Point.run settings ⟨holder, .loop place variableName body (item :: items), u⟩) := by
  have hfirst := next _ .item _ (Leads.item.ready_next hu) (h.push _)
  rcases hf : Point.run settings ⟨holder, .blocks place 0 body, s.push [(variableName, item)]⟩ with
    ⟨r, s₁⟩
  rcases hg : Point.run settings ⟨holder, .blocks place 0 body, u.push [(variableName, item)]⟩ with
    ⟨r', u₁⟩
  rw [hf, hg] at hfirst
  rcases hfirst with ⟨hr, h₁⟩ | ⟨e, he, hm⟩
  · cases hr
    cases r with
    | error e =>
      rw [Point.run_items_error hf, Point.run_items_error hg]
      exact .inl ⟨rfl, h₁.pop⟩
    | ok text =>
      rw [Point.run_items hf, Point.run_items hg]
      have hn := next _ (.items hf) _ ((Leads.items hg).ready_next hu) h₁.pop
      exact (hn.leads (.items hf)).map (text ++ ·)
  · cases he
    rw [Point.run_items_error hf]
    exact .inr ⟨e, rfl, hm.leads .item⟩

theorem follows_bindBlock {block : Block}
    (next : ∀ q, Leads settings ⟨.own, .bindBlock place block, s⟩ q → Simulates settings base q)
    (hu : Ready settings ⟨.own, .bindBlock place block, u⟩) (h : Ahead base s u) :
    Follows settings base ⟨.own, .bindBlock place block, s⟩
      (Point.run settings ⟨.own, .bindBlock place block, s⟩)
      (Point.run settings ⟨.own, .bindBlock place block, u⟩) := by
  cases block with
  | static l raw body =>
    rw [Point.run_bindStatic, Point.run_bindStatic]
    have hn := next _ .bindStatic u (Leads.bindStatic.ready_next hu) h
    exact (hn.leads .bindStatic).map fun _ => ""
  | loop l variableName collection attributes raw body =>
    exact (next _ .bindLoop u (Leads.bindLoop.ready_next hu) h).leads .bindLoop
  | cond l condition attributes raw body =>
    exact (next _ .bindCond u (Leads.bindCond.ready_next hu) h).leads .bindCond
  | text | inline | inclusion => exact .inl ⟨rfl, h⟩

theorem follows_bindBlocks {block : Block} {blocks : List Block}
    (next : ∀ q, Leads settings ⟨.own, .bindBlocks place index (block :: blocks), s⟩ q →
      Simulates settings base q)
    (hu : Ready settings ⟨.own, .bindBlocks place index (block :: blocks), u⟩)
    (h : Ahead base s u) :
    Follows settings base ⟨.own, .bindBlocks place index (block :: blocks), s⟩
      (Point.run settings ⟨.own, .bindBlocks place index (block :: blocks), s⟩)
      (Point.run settings ⟨.own, .bindBlocks place index (block :: blocks), u⟩) := by
  have hfirst := next _ .bindFirst u (Leads.bindFirst.ready_next hu) h
  rcases hf : Point.run settings ⟨.own, .bindBlock (index :: place) block, s⟩ with ⟨r, s₁⟩
  rcases hg : Point.run settings ⟨.own, .bindBlock (index :: place) block, u⟩ with ⟨r', u₁⟩
  rw [hf, hg] at hfirst
  rcases hfirst with ⟨hr, h₁⟩ | ⟨e, he, hm⟩
  · cases hr
    cases r with
    | error e =>
      rw [Point.run_bindBlocks_error hf, Point.run_bindBlocks_error hg]
      exact .inl ⟨rfl, h₁⟩
    | ok text =>
      rw [Point.run_bindBlocks_cons hf, Point.run_bindBlocks_cons hg]
      exact (next _ (.bindNext hf) u₁ ((Leads.bindNext hg).ready_next hu) h₁).leads (.bindNext hf)
  · cases he
    rw [Point.run_bindBlocks_error hf]
    exact .inr ⟨e, rfl, hm.leads .bindFirst⟩

/-- The body of a static block is rendered from both states. -/
theorem follows_body {l : Markup.Location} {raw : String} {body : List Block}
    (next : ∀ q, Leads settings ⟨holder, .block place (.static l raw body), s⟩ q →
      Simulates settings base q)
    (hp : Ready settings ⟨holder, .block place (.static l raw body), s⟩)
    (hu : Ready settings ⟨holder, .block place (.static l raw body), u⟩) (h : Ahead base s u)
    (hns : s.resolved holder place = none) (hnu : u.resolved holder place = none) :
    Follows settings base ⟨holder, .block place (.static l raw body), s⟩
      (Point.run settings ⟨holder, .block place (.static l raw body), s⟩)
      (Point.run settings ⟨holder, .block place (.static l raw body), u⟩) := by
  have hbody := next _ (.static hns) _ ((Leads.static hnu).ready_next hu) h.detach
  rcases hf : Point.run settings ⟨holder, .blocks place 0 body, s.detach⟩ with ⟨r, s₁⟩
  rcases hg : Point.run settings ⟨holder, .blocks place 0 body, u.detach⟩ with ⟨r', u₁⟩
  rw [hf, hg] at hbody
  rcases hbody with ⟨hr, h₁⟩ | ⟨e, he, hm⟩
  · cases hr
    cases r with
    | error e =>
      rw [Point.run_static_error hns hf, Point.run_static_error hnu hg]
      exact .inl ⟨rfl, h.reattach h₁⟩
    | ok text =>
      rw [Point.run_static hns hf, Point.run_static hnu hg]
      have ha := h.reattach h₁
      cases holder with
      | own =>
        have hk := ha.keep_own place text
        refine .inl ⟨?_, hk⟩
        have hc : ((u.reattach u₁).keep .own place text).resolved .own place =
            ((s.reattach s₁).keep .own place text).resolved .own place :=
          congrArg (Cells.get? place) hk.cells
        exact congrArg (fun known : Option String => Except.ok (known.getD text)) hc
      | stored key =>
        have ho := Point.outcome _ ((Leads.static hns).ready_next hp) _ _ hf
        have ho' := Point.outcome _ ((Leads.static hnu).ready_next hu) _ _ hg
        have hs₁ := ho.le.templates key (hp.stored key rfl).1
        have hu₁ := ho'.le.templates key (hu.stored key rfl).1
        have hk := ha.keep_stored hs₁ hu₁ fun text' ht' _ => by
          obtain ⟨body', hb, hy⟩ := ho'.sound.statics key place text' ht'
          cases hb.symm.trans (hu.stored key rfl).2
          exact Yields.unique (ho.yields key text rfl rfl) hy
        refine .inl ⟨?_, hk⟩
        obtain ⟨known, hknown⟩ := Store.resolved_keep_self hs₁ place text
        have hc : ((u.reattach u₁).keep (.stored key) place text).resolved (.stored key) place =
            some known := hk.kept key place known hknown
        have hc' : ((s.reattach s₁).keep (.stored key) place text).resolved (.stored key) place =
            some known := hknown
        rw [hc, hc']
  · cases he
    rw [Point.run_static_error hns hf]
    exact .inr ⟨e, rfl, hm.leads (.static hns)⟩

/-- A body that the second state need not render fails for the chain, if it fails. -/
theorem follows_known {key text : String} {l : Markup.Location} {raw : String}
    {body : List Block} (hp : Ready settings ⟨.stored key, .block place (.static l raw body), s⟩)
    (hu : Ready settings ⟨.stored key, .block place (.static l raw body), u⟩) (h : Ahead base s u)
    (hns : s.store.resolved key place = none) (hsu : u.store.resolved key place = some text) :
    Follows settings base ⟨.stored key, .block place (.static l raw body), s⟩
      (Point.run settings ⟨.stored key, .block place (.static l raw body), s⟩)
      (Point.run settings ⟨.stored key, .block place (.static l raw body), u⟩) := by
  obtain ⟨body', hb, hy⟩ := hu.sound.statics key place text hsu
  cases hb.symm.trans (hu.stored key rfl).2
  rcases hf : Point.run settings ⟨.stored key, .block place (.static l raw body), s⟩ with ⟨r, s₁⟩
  have ho := Point.outcome _ hp _ _ hf
  obtain ⟨hkept, hr⟩ := yielded_of_yields (.static hsu hy) rfl hp h.kept hf
  have hres : u.resolved (.stored key) place = some text := hsu
  rw [Point.run_static_resolved hres]
  rcases hr with rfl | ⟨e, rfl, hc⟩
  · refine .inl ⟨rfl, h.context.trans (Point.context_eq hf).symm,
      h.chain.trans (Point.chain_eq hf).symm, h.cells.trans (ho.cells key rfl).symm, hkept,
      fun other p v hv => ?_⟩
    exact (h.origin other p v hv).imp_left (ho.le.resolved other p v)
  · refine .inr ⟨e, rfl, hc, key, place, l, raw, body, s, text, .refl, hns, ?_, by rw [hf]⟩
    rcases h.origin key place text hsu with hs | hbase
    · cases hns.symm.trans hs
    · exact hbase

theorem follows_static {l : Markup.Location} {raw : String} {body : List Block}
    (next : ∀ q, Leads settings ⟨holder, .block place (.static l raw body), s⟩ q →
      Simulates settings base q)
    (hp : Ready settings ⟨holder, .block place (.static l raw body), s⟩)
    (hu : Ready settings ⟨holder, .block place (.static l raw body), u⟩) (h : Ahead base s u) :
    Follows settings base ⟨holder, .block place (.static l raw body), s⟩
      (Point.run settings ⟨holder, .block place (.static l raw body), s⟩)
      (Point.run settings ⟨holder, .block place (.static l raw body), u⟩) := by
  cases hs : s.resolved holder place with
  | some text =>
    have hsu : u.resolved holder place = some text := by
      cases holder with
      | own => exact (congrArg (Cells.get? place) h.cells).trans hs
      | stored key => exact h.kept key place text hs
    rw [Point.run_static_resolved hs, Point.run_static_resolved hsu]
    exact .inl ⟨rfl, h⟩
  | none =>
    cases hsu : u.resolved holder place with
    | none => exact follows_body next hp hu h hs hsu
    | some text =>
      cases holder with
      | own => cases ((congrArg (Cells.get? place) h.cells).trans hs).symm.trans hsu
      | stored key => exact follows_known hp hu h hs hsu

end

/-- From a state that is ahead a point has the same outcome, unless its own outcome is an error that
the other state masks. -/
theorem Point.follows (p : Point) (hp : Ready settings p) : Simulates settings base p := by
  induction p using Point.induction settings with
  | step p ih =>
    have next : ∀ q, Leads settings p q → Simulates settings base q :=
      fun q hq => ih q hq (hq.ready_next hp)
    obtain ⟨holder, task, s⟩ := p
    intro u hu h
    cases task with
    | block place block =>
      cases block with
      | text l content => exact .inl ⟨rfl, h⟩
      | inline l expression => exact follows_inline hp.sound hu.sound h
      | loop l variableName collection attributes raw body => exact follows_loop next hp.sound hu h
      | cond l condition attributes raw body => exact follows_cond next hp.sound hu h
      | static l raw body => exact follows_static next hp hu h
      | inclusion l resource attributes => exact follows_inclusion next hp.sound hu h
    | blocks place index blocks =>
      cases blocks with
      | nil => exact .inl ⟨rfl, h⟩
      | cons block blocks => exact follows_blocks next hu h
    | loop place variableName body items =>
      cases items with
      | nil => exact .inl ⟨rfl, h⟩
      | cons item items => exact follows_items next hu h
    | bindBlock place block =>
      cases holder with
      | stored key => exact absurd (hp.stored key rfl).2 id
      | own => exact follows_bindBlock next hu h
    | bindBlocks place index blocks =>
      cases holder with
      | stored key => exact absurd (hp.stored key rfl).2 id
      | own =>
        cases blocks with
        | nil => exact .inl ⟨rfl, h⟩
        | cons block blocks => exact follows_bindBlocks next hu h

end Stencil.Render
