import Stencil.Proofs.Render.Points

/-!
# Renderings finish

The recursion of a rendering goes through loaded templates, and a loader may answer anything. The
rules of `Finishes` say what a point comes to, one rule for each way that it can go; nothing in them
counts or limits how often a rule is used. Every point has an outcome by these rules, and it is the
one that its run has (`finishes_iff`).

At all points of a rendering the names in the chain are different, and no more than the limit allows
(`Passes.legal`).
-/

namespace Stencil.Render

open Markup (Block Attributes)

/-! ## Rules -/

/-- A point finishes with a result and leaves a state behind. -/
inductive Finishes (settings : Settings) : Point → Except Error String → State → Prop
  | text {holder place l content s} :
      Finishes settings ⟨holder, .block place (.text l content), s⟩ (.ok content) s
  | inline {holder place l expression s s' r}
      (hv : Render.run (evaluate expression) s = (r, s')) :
      Finishes settings ⟨holder, .block place (.inline l expression), s⟩ (r.map Value.display) s'
  | loopError {holder place l variableName collection attributes raw body s s' e}
      (hv : Render.run (evaluate collection) s = (.error e, s')) :
      Finishes settings
        ⟨holder, .block place (.loop l variableName collection attributes raw body), s⟩
        (.error e) s'
  | loopType {holder place l variableName collection attributes raw body s s' value e}
      (hv : Render.run (evaluate collection) s = (.ok value, s'))
      (hi : elements collection value = .error e) :
      Finishes settings
        ⟨holder, .block place (.loop l variableName collection attributes raw body), s⟩
        (.error e) s'
  | loop {holder place l variableName collection attributes raw body s s' s'' value items r}
      (hv : Render.run (evaluate collection) s = (.ok value, s'))
      (hi : elements collection value = .ok items)
      (h : Finishes settings ⟨holder, .loop place variableName body items, s'⟩ r s'') :
      Finishes settings
        ⟨holder, .block place (.loop l variableName collection attributes raw body), s⟩ r s''
  | condError {holder place l condition attributes raw body s s' e}
      (hv : Render.run (evaluate condition) s = (.error e, s')) :
      Finishes settings ⟨holder, .block place (.cond l condition attributes raw body), s⟩
        (.error e) s'
  | condType {holder place l condition attributes raw body s s' value e}
      (hv : Render.run (evaluate condition) s = (.ok value, s'))
      (ht : truth condition value = .error e) :
      Finishes settings ⟨holder, .block place (.cond l condition attributes raw body), s⟩
        (.error e) s'
  | condTrue {holder place l condition attributes raw body s s' s'' value r}
      (hv : Render.run (evaluate condition) s = (.ok value, s'))
      (ht : truth condition value = .ok true)
      (h : Finishes settings ⟨holder, .blocks place 0 body, s'⟩ r s'') :
      Finishes settings ⟨holder, .block place (.cond l condition attributes raw body), s⟩ r s''
  | condFalse {holder place l condition attributes raw body s s' value}
      (hv : Render.run (evaluate condition) s = (.ok value, s'))
      (ht : truth condition value = .ok false) :
      Finishes settings ⟨holder, .block place (.cond l condition attributes raw body), s⟩
        (.ok "") s'
  | staticResolved {holder place l raw body text} {s : State}
      (hs : s.resolved holder place = some text) :
      Finishes settings ⟨holder, .block place (.static l raw body), s⟩ (.ok text) s
  | staticError {holder place l raw body e} {s s' : State} (hs : s.resolved holder place = none)
      (h : Finishes settings ⟨holder, .blocks place 0 body, s.detach⟩ (.error e) s') :
      Finishes settings ⟨holder, .block place (.static l raw body), s⟩ (.error e) (s.reattach s')
  | static {holder place l raw body text} {s s' : State} (hs : s.resolved holder place = none)
      (h : Finishes settings ⟨holder, .blocks place 0 body, s.detach⟩ (.ok text) s') :
      Finishes settings ⟨holder, .block place (.static l raw body), s⟩
        (.ok ((((s.reattach s').keep holder place text).resolved holder place).getD text))
        ((s.reattach s').keep holder place text)
  | inclusionCycle {holder place l resource attributes s}
      (hc : canonicalName settings resource ∈ s.chain) :
      Finishes settings ⟨holder, .block place (.inclusion l resource attributes), s⟩
        (.error (.cyclicInclusion (canonicalName settings resource)
          (canonicalName settings resource :: s.chain).reverse)) s
  | inclusionDepth {holder place l resource attributes s}
      (hc : canonicalName settings resource ∉ s.chain)
      (hd : settings.config.maxInclusionDepth ≤ s.chain.length) :
      Finishes settings ⟨holder, .block place (.inclusion l resource attributes), s⟩
        (.error (.inclusionDepthExceeded settings.config.maxInclusionDepth)) s
  | inclusionLoad {holder place l resource attributes s s' e}
      (hc : canonicalName settings resource ∉ s.chain)
      (hd : s.chain.length < settings.config.maxInclusionDepth)
      (hl : Render.run (load settings (canonicalName settings resource)) s = (.error e, s')) :
      Finishes settings ⟨holder, .block place (.inclusion l resource attributes), s⟩ (.error e) s'
  | inclusionBindings {holder place l resource attributes s s₁ s₂ p e}
      (hc : canonicalName settings resource ∉ s.chain)
      (hd : s.chain.length < settings.config.maxInclusionDepth)
      (hl : Render.run (load settings (canonicalName settings resource)) s = (.ok p, s₁))
      (hb : Render.run (evaluateBindings (Block.bindings attributes)) s₁ = (.error e, s₂)) :
      Finishes settings ⟨holder, .block place (.inclusion l resource attributes), s⟩ (.error e) s₂
  | inclusion {holder place l resource attributes s s₁ s₂ s' key bindings r} {t : Template}
      (hc : canonicalName settings resource ∉ s.chain)
      (hd : s.chain.length < settings.config.maxInclusionDepth)
      (hl : Render.run (load settings (canonicalName settings resource)) s = (.ok (key, t), s₁))
      (hb : Render.run (evaluateBindings (Block.bindings attributes)) s₁ = (.ok bindings, s₂))
      (h : Finishes settings ⟨.stored key, .blocks [] 0 t.blocks,
        s₂.enter (canonicalName settings resource) bindings⟩ r s') :
      Finishes settings ⟨holder, .block place (.inclusion l resource attributes), s⟩ r s'.leave
  | nil {holder place index s} :
      Finishes settings ⟨holder, .blocks place index [], s⟩ (.ok "") s
  | firstError {holder place index block blocks s s' e}
      (h : Finishes settings ⟨holder, .block (index :: place) block, s⟩ (.error e) s') :
      Finishes settings ⟨holder, .blocks place index (block :: blocks), s⟩ (.error e) s'
  | next {holder place index block blocks s s' s'' text r}
      (h : Finishes settings ⟨holder, .block (index :: place) block, s⟩ (.ok text) s')
      (ht : Finishes settings ⟨holder, .blocks place (index + 1) blocks, s'⟩ r s'') :
      Finishes settings ⟨holder, .blocks place index (block :: blocks), s⟩ (r.map (text ++ ·)) s''
  | itemsNil {holder place variableName body s} :
      Finishes settings ⟨holder, .loop place variableName body [], s⟩ (.ok "") s
  | itemError {holder place variableName body item items s s' e}
      (h : Finishes settings ⟨holder, .blocks place 0 body, s.push [(variableName, item)]⟩
        (.error e) s') :
      Finishes settings ⟨holder, .loop place variableName body (item :: items), s⟩ (.error e) s'.pop
  | items {holder place variableName body item items s s' s'' text r}
      (h : Finishes settings ⟨holder, .blocks place 0 body, s.push [(variableName, item)]⟩
        (.ok text) s')
      (ht : Finishes settings ⟨holder, .loop place variableName body items, s'.pop⟩ r s'') :
      Finishes settings ⟨holder, .loop place variableName body (item :: items), s⟩
        (r.map (text ++ ·)) s''
  | bindText {place l content s} :
      Finishes settings ⟨.own, .bindBlock place (.text l content), s⟩ (.ok "") s
  | bindInline {place l expression s} :
      Finishes settings ⟨.own, .bindBlock place (.inline l expression), s⟩ (.ok "") s
  | bindInclusion {place l resource attributes s} :
      Finishes settings ⟨.own, .bindBlock place (.inclusion l resource attributes), s⟩ (.ok "") s
  | bindStatic {place l raw body s s' r}
      (h : Finishes settings ⟨.own, .block place (.static l raw body), s⟩ r s') :
      Finishes settings ⟨.own, .bindBlock place (.static l raw body), s⟩ (r.map fun _ => "") s'
  | bindLoop {place l variableName collection attributes raw body s s' r}
      (h : Finishes settings ⟨.own, .bindBlocks place 0 body, s⟩ r s') :
      Finishes settings
        ⟨.own, .bindBlock place (.loop l variableName collection attributes raw body), s⟩ r s'
  | bindCond {place l condition attributes raw body s s' r}
      (h : Finishes settings ⟨.own, .bindBlocks place 0 body, s⟩ r s') :
      Finishes settings ⟨.own, .bindBlock place (.cond l condition attributes raw body), s⟩ r s'
  | bindNil {place index s} :
      Finishes settings ⟨.own, .bindBlocks place index [], s⟩ (.ok "") s
  | bindFirstError {place index block blocks s s' e}
      (h : Finishes settings ⟨.own, .bindBlock (index :: place) block, s⟩ (.error e) s') :
      Finishes settings ⟨.own, .bindBlocks place index (block :: blocks), s⟩ (.error e) s'
  | bindNext {place index block blocks s s' s'' text r}
      (h : Finishes settings ⟨.own, .bindBlock (index :: place) block, s⟩ (.ok text) s')
      (ht : Finishes settings ⟨.own, .bindBlocks place (index + 1) blocks, s'⟩ r s'') :
      Finishes settings ⟨.own, .bindBlocks place index (block :: blocks), s⟩ r s''

/-! ## Runs by the rules -/

variable {settings : Settings}

/-- What the rules say of a point is what its run does. -/
theorem Finishes.run_eq {p : Point} {r : Except Error String} {s' : State}
    (h : Finishes settings p r s') : p.run settings = (r, s') := by
  induction h with
  | text => rfl
  | inline hv => rw [Point.run_inline, hv]
  | loopError hv => exact Point.run_loop_error hv
  | loopType hv hi => exact Point.run_loop_type hv hi
  | loop hv hi _ ih => exact (Point.run_loop hv hi).trans ih
  | condError hv => exact Point.run_cond_error hv
  | condType hv ht => exact Point.run_cond_type hv ht
  | condTrue hv ht _ ih => exact (Point.run_cond_true hv ht).trans ih
  | condFalse hv ht => exact Point.run_cond_false hv ht
  | staticResolved hs => exact Point.run_static_resolved hs
  | staticError hs _ ih => exact Point.run_static_error hs ih
  | static hs _ ih => exact Point.run_static hs ih
  | inclusionCycle hc => exact Point.run_inclusion_of_mem hc
  | inclusionDepth hc hd => exact Point.run_inclusion_of_le hc hd
  | inclusionLoad hc hd hl => exact Point.run_inclusion_load hc hd hl
  | inclusionBindings hc hd hl hb => exact Point.run_inclusion_bindings hc hd hl hb
  | inclusion hc hd hl hb _ ih => rw [Point.run_inclusion hc hd hl hb, ih]
  | nil => rfl
  | firstError _ ih => exact Point.run_blocks_error ih
  | next _ _ ih iht => rw [Point.run_blocks_cons ih, iht]
  | itemsNil => rfl
  | itemError _ ih => exact Point.run_items_error ih
  | items _ _ ih iht => rw [Point.run_items ih, iht]
  | bindText => rfl
  | bindInline => rfl
  | bindInclusion => rfl
  | bindStatic _ ih => rw [Point.run_bindStatic, ih]
  | bindLoop _ ih => exact ih
  | bindCond _ ih => exact ih
  | bindNil => rfl
  | bindFirstError _ ih => exact Point.run_bindBlocks_error ih
  | bindNext _ _ ih iht => exact (Point.run_bindBlocks_cons ih).trans iht

/-- Static blocks are bound in the tree that a rendering begins with, and in no other. -/
def Point.Proper (p : Point) : Prop :=
  match p.task with
  | .bindBlock _ _ => p.holder = .own
  | .bindBlocks _ _ _ => p.holder = .own
  | _ => True

theorem Leads.proper {p q : Point} (h : Leads settings p q) : q.Proper := by
  cases h <;> trivial

/-- The run of a point is an outcome by the rules. -/
def Point.Ends (settings : Settings) (p : Point) : Prop :=
  Finishes settings p (p.run settings).1 (p.run settings).2

theorem Finishes.ends {p : Point} {r : Except Error String} {s' : State}
    (h : Finishes settings p r s') : p.Ends settings := by
  rw [Point.Ends, h.run_eq]
  exact h

theorem Point.Ends.finishes {p : Point} {r : Except Error String} {s' : State}
    (h : p.Ends settings) (hr : p.run settings = (r, s')) : Finishes settings p r s' := by
  rwa [Point.Ends, hr] at h

section

variable {holder : Holder} {place : Place} {index : Nat} {s : State}

theorem ends_inline (l : Markup.Location) (expression : String) :
    Point.Ends settings ⟨holder, .block place (.inline l expression), s⟩ :=
  Finishes.ends (.inline rfl)

theorem ends_loop {l : Markup.Location} {variableName collection raw : String}
    {attributes : Attributes} {body : List Block}
    (next : ∀ q, Leads settings
      ⟨holder, .block place (.loop l variableName collection attributes raw body), s⟩ q →
      q.Ends settings) :
    Point.Ends settings
      ⟨holder, .block place (.loop l variableName collection attributes raw body), s⟩ := by
  rcases hv : run (evaluate collection) s with ⟨e | value, s₁⟩
  · exact Finishes.ends (.loopError hv)
  cases hi : elements collection value with
  | error e => exact Finishes.ends (.loopType hv hi)
  | ok items => exact Finishes.ends (.loop hv hi (next _ (.loop hv hi)))

theorem ends_cond {l : Markup.Location} {condition raw : String} {attributes : Attributes}
    {body : List Block}
    (next : ∀ q, Leads settings
      ⟨holder, .block place (.cond l condition attributes raw body), s⟩ q → q.Ends settings) :
    Point.Ends settings ⟨holder, .block place (.cond l condition attributes raw body), s⟩ := by
  rcases hv : run (evaluate condition) s with ⟨e | value, s₁⟩
  · exact Finishes.ends (.condError hv)
  cases ht : truth condition value with
  | error e => exact Finishes.ends (.condType hv ht)
  | ok b =>
    cases b with
    | true => exact Finishes.ends (.condTrue hv ht (next _ (.cond hv ht)))
    | false => exact Finishes.ends (.condFalse hv ht)

theorem ends_static {l : Markup.Location} {raw : String} {body : List Block}
    (next : ∀ q, Leads settings ⟨holder, .block place (.static l raw body), s⟩ q →
      q.Ends settings) :
    Point.Ends settings ⟨holder, .block place (.static l raw body), s⟩ := by
  cases hs : s.resolved holder place with
  | some text => exact Finishes.ends (.staticResolved hs)
  | none =>
    have hbody := next _ (.static hs)
    rcases hb : Point.run settings ⟨holder, .blocks place 0 body, s.detach⟩ with ⟨e | text, s₁⟩
    · exact Finishes.ends (.staticError hs (hbody.finishes hb))
    · exact Finishes.ends (.static hs (hbody.finishes hb))

theorem ends_inclusion {l : Markup.Location} {resource : String} {attributes : Attributes}
    (next : ∀ q, Leads settings ⟨holder, .block place (.inclusion l resource attributes), s⟩ q →
      q.Ends settings) :
    Point.Ends settings ⟨holder, .block place (.inclusion l resource attributes), s⟩ := by
  by_cases hc : canonicalName settings resource ∈ s.chain
  · exact Finishes.ends (.inclusionCycle hc)
  by_cases hd : settings.config.maxInclusionDepth ≤ s.chain.length
  · exact Finishes.ends (.inclusionDepth hc hd)
  have hd := Nat.lt_of_not_le hd
  rcases hl : run (load settings (canonicalName settings resource)) s with ⟨e | ⟨key, t⟩, s₁⟩
  · exact Finishes.ends (.inclusionLoad hc hd hl)
  rcases hb : run (evaluateBindings (Block.bindings attributes)) s₁ with ⟨e | bindings, s₂⟩
  · exact Finishes.ends (.inclusionBindings hc hd hl hb)
  · exact Finishes.ends (.inclusion hc hd hl hb (next _ (.inclusion hc hd hl hb)))

theorem ends_blocks {block : Block} {blocks : List Block}
    (next : ∀ q, Leads settings ⟨holder, .blocks place index (block :: blocks), s⟩ q →
      q.Ends settings) :
    Point.Ends settings ⟨holder, .blocks place index (block :: blocks), s⟩ := by
  have hfirst := next _ .first
  rcases hf : Point.run settings ⟨holder, .block (index :: place) block, s⟩ with ⟨e | text, s₁⟩
  · exact Finishes.ends (.firstError (hfirst.finishes hf))
  · exact Finishes.ends (.next (hfirst.finishes hf) (next _ (.next hf)))

theorem ends_items {variableName : String} {body : List Block} {item : Value}
    {items : List Value}
    (next : ∀ q, Leads settings ⟨holder, .loop place variableName body (item :: items), s⟩ q →
      q.Ends settings) :
    Point.Ends settings ⟨holder, .loop place variableName body (item :: items), s⟩ := by
  have hitem := next _ .item
  rcases hf : Point.run settings ⟨holder, .blocks place 0 body, s.push [(variableName, item)]⟩ with
    ⟨e | text, s₁⟩
  · exact Finishes.ends (.itemError (hitem.finishes hf))
  · exact Finishes.ends (.items (hitem.finishes hf) (next _ (.items hf)))

theorem ends_bindBlock {block : Block}
    (next : ∀ q, Leads settings ⟨.own, .bindBlock place block, s⟩ q → q.Ends settings) :
    Point.Ends settings ⟨.own, .bindBlock place block, s⟩ := by
  cases block with
  | static l raw body => exact Finishes.ends (.bindStatic (next _ .bindStatic))
  | loop l variableName collection attributes raw body =>
    exact Finishes.ends (.bindLoop (next _ .bindLoop))
  | cond l condition attributes raw body => exact Finishes.ends (.bindCond (next _ .bindCond))
  | text l content => exact Finishes.ends .bindText
  | inline l expression => exact Finishes.ends .bindInline
  | inclusion l resource attributes => exact Finishes.ends .bindInclusion

theorem ends_bindBlocks {block : Block} {blocks : List Block}
    (next : ∀ q, Leads settings ⟨.own, .bindBlocks place index (block :: blocks), s⟩ q →
      q.Ends settings) :
    Point.Ends settings ⟨.own, .bindBlocks place index (block :: blocks), s⟩ := by
  have hfirst := next _ .bindFirst
  rcases hf : Point.run settings ⟨.own, .bindBlock (index :: place) block, s⟩ with ⟨e | text, s₁⟩
  · exact Finishes.ends (.bindFirstError (hfirst.finishes hf))
  · exact Finishes.ends (.bindNext (hfirst.finishes hf) (next _ (.bindNext hf)))

end

/-- Every point finishes by the rules, however it goes on. -/
theorem Point.ends (p : Point) (hp : p.Proper) : p.Ends settings := by
  induction p using Point.induction settings with
  | step p ih =>
    have next : ∀ q, Leads settings p q → q.Ends settings := fun q hq => ih q hq hq.proper
    obtain ⟨holder, task, s⟩ := p
    cases task with
    | block place block =>
      cases block with
      | text l content => exact Finishes.ends .text
      | inline l expression => exact ends_inline l expression
      | loop l variableName collection attributes raw body => exact ends_loop next
      | cond l condition attributes raw body => exact ends_cond next
      | static l raw body => exact ends_static next
      | inclusion l resource attributes => exact ends_inclusion next
    | blocks place index blocks =>
      cases blocks with
      | nil => exact Finishes.ends .nil
      | cons block blocks => exact ends_blocks next
    | loop place variableName body items =>
      cases items with
      | nil => exact Finishes.ends .itemsNil
      | cons item items => exact ends_items next
    | bindBlock place block =>
      have hp : holder = .own := hp
      subst hp
      exact ends_bindBlock next
    | bindBlocks place index blocks =>
      have hp : holder = .own := hp
      subst hp
      cases blocks with
      | nil => exact Finishes.ends .bindNil
      | cons block blocks => exact ends_bindBlocks next

/-- The rules give every point one outcome, that of its run. -/
theorem finishes_iff {p : Point} (hp : p.Proper) {r : Except Error String} {s' : State} :
    Finishes settings p r s' ↔ p.run settings = (r, s') :=
  ⟨Finishes.run_eq, (p.ends hp).finishes⟩

theorem Point.finishes {p : Point} {r : Except Error String} {s' : State}
    (h : p.run settings = (r, s')) (hp : p.Proper) : Finishes settings p r s' :=
  (finishes_iff hp).2 h

/-! ## The chain -/

/-- A chain that an inclusion may be in: its names are different, and no more than the limit. -/
structure Legal (settings : Settings) (chain : List String) : Prop where
  nodup : chain.Nodup
  length_le : chain.length ≤ settings.config.maxInclusionDepth

theorem legal_nil (settings : Settings) : Legal settings [] := ⟨List.nodup_nil, Nat.zero_le _⟩

theorem Legal.cons {chain : List String} (h : Legal settings chain) {name : String}
    (hc : name ∉ chain) (hd : chain.length < settings.config.maxInclusionDepth) :
    Legal settings (name :: chain) :=
  ⟨List.nodup_cons.2 ⟨hc, h.nodup⟩, hd⟩

/-- An inclusion adds a name that is new as long as there is room; nothing else changes the chain
that the next points begin with. -/
theorem Leads.legal {p q : Point} (h : Leads settings p q) (hp : Legal settings p.state.chain) :
    Legal settings q.state.chain := by
  cases h with
  | loop hv hi => rwa [(frames_evaluate _).chain_eq hv]
  | item => exact hp
  | items h =>
    have hc : Legal settings _ := (Point.chain_eq h).symm ▸ hp
    exact hc
  | cond hv ht => rwa [(frames_evaluate _).chain_eq hv]
  | static h => exact hp
  | inclusion hc hd hl hb =>
    have h₁ := (frames_load _ _).chain_eq hl
    have h₂ := (frames_evaluateBindings _).chain_eq hb
    rw [State.enter, h₂, h₁]
    exact hp.cons hc hd
  | first => exact hp
  | next h => rwa [Point.chain_eq h]
  | bindStatic => exact hp
  | bindLoop => exact hp
  | bindCond => exact hp
  | bindFirst => exact hp
  | bindNext h => rwa [Point.chain_eq h]

/-- The chain is legal at all points that a point with a legal chain comes to. -/
theorem Passes.legal {p q : Point} (h : Passes settings p q) (hp : Legal settings p.state.chain) :
    Legal settings q.state.chain := by
  induction h with
  | refl => exact hp
  | tail _ h ih => exact h.legal ih

/-! ## Renderings from the beginning -/

/-- A rendering that begins without inclusions finishes, and so does the binding of static blocks,
whatever is kept and whatever a loader answers. At every point that they come to, the names in the
chain are different and no more than the limit allows, and the point leaves the chain as it was. -/
theorem renderBlocks_finishes (settings : Settings) (holder : Holder) (blocks : List Block)
    (context : Context) (cells : Cells) (store : Store) (expressions : Expression.Cache) :
    let s : State := { context, cells, store, expressions }
    let rendering : Point := ⟨holder, .blocks [] 0 blocks, s⟩
    let binding : Point := ⟨.own, .bindBlocks [] 0 blocks, s⟩
    (∃ r s', Finishes settings rendering r s' ∧
      run (renderBlocks (including settings) holder [] 0 blocks) s = (r, s')) ∧
    (∃ r s', Finishes settings binding (r.map fun _ => "") s' ∧
      run (bindBlocks settings [] 0 blocks) s = (r, s')) ∧
    ∀ q, Passes settings rendering q ∨ Passes settings binding q →
      q.state.chain.Nodup ∧ q.state.chain.length ≤ settings.config.maxInclusionDepth ∧
      (q.run settings).2.chain = q.state.chain := by
  intro s rendering binding
  have hrender : rendering.Ends settings := rendering.ends trivial
  have hbind : binding.Ends settings := binding.ends rfl
  refine ⟨⟨_, _, hrender, rfl⟩, ⟨_, _, ?_, rfl⟩, ?_⟩
  · have hrun : binding.run settings = _ := Point.run_silent (bindBlocks settings [] 0 blocks) s
    exact hbind.finishes hrun
  · intro q hq
    have hlegal : Legal settings q.state.chain := by
      rcases hq with hq | hq
      · exact hq.legal (legal_nil settings)
      · exact hq.legal (legal_nil settings)
    exact ⟨hlegal.nodup, hlegal.length_le, Point.chain_eq rfl⟩

/-- A stored template `a` that includes itself through a static block. -/
def circle : Store where
  templates := [("a", ⟨[.static ⟨1, 1, 0⟩ "" [.inclusion ⟨1, 9, 8⟩ "a" []]], []⟩)]

/-- Templates come from the store only, and two inclusions may be inside of each other. -/
def stored : Settings where
  config := { maxInclusionDepth := 2 }
  loader := some ⟨id, fun name => .error (.resourceNotFound name)⟩

/-- An inclusion of `a`, with the store as it is. -/
def inclusionOfA : Point :=
  ⟨.own, .blocks [] 0 [.inclusion ⟨1, 1, 0⟩ "a" []], ⟨{}, [], [], circle, []⟩⟩

/-- The inclusion of `a` inside of `a` is come to with `a` in the chain, and is refused. -/
theorem circle_finishes :
    ∃ q, Passes stored inclusionOfA q ∧
      (q.run stored).1 = .error (.cyclicInclusion "a" ["a", "a"]) ∧ q.state.chain = ["a"] ∧
      q.state.chain.Nodup ∧ q.state.chain.length ≤ 2 ∧ (q.run stored).2.chain = ["a"] := by
  let t : Template := ⟨[.static ⟨1, 1, 0⟩ "" [.inclusion ⟨1, 9, 8⟩ "a" []]], []⟩
  have hroom : inclusionOfA.state.chain.length < stored.config.maxInclusionDepth := Nat.two_pos
  have hload : run (load stored (canonicalName stored "a")) inclusionOfA.state =
      (.ok ("a", t), inclusionOfA.state) := rfl
  have hbindings : run (evaluateBindings (Block.bindings [])) inclusionOfA.state =
      (.ok [], inclusionOfA.state) := rfl
  have hp : Passes stored inclusionOfA _ :=
    ((((Relation.ReflTransGen.single .first).tail
      (.inclusion List.not_mem_nil hroom hload hbindings)).tail .first).tail
      (.static rfl)).tail .first
  obtain ⟨-, -, h⟩ :=
    renderBlocks_finishes stored .own [.inclusion ⟨1, 1, 0⟩ "a" []] {} [] circle []
  obtain ⟨hnodup, hlength, hchain⟩ := h _ (.inl hp)
  exact ⟨_, hp, congrArg Prod.fst (Point.run_inclusion_of_mem (List.mem_singleton_self "a")), rfl,
    hnodup, hlength, hchain⟩

end Stencil.Render
