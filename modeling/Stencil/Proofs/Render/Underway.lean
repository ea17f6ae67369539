import Stencil.Proofs.Render.Growth
import Stencil.Proofs.Render.Outcome

/-!
# Static blocks under way

A static block whose body is being rendered has no text yet. The body may come to the same block
once more: the chain has the names that templates were included under, and a loader may let
different ones of them lead to one template. But then the body fails there, since on its way back to
the block it comes to an inclusion that is in the chain already (`Way.refused`).

So a static block that is under way gets no text from inside of its own body (`Finishes.pending`),
and one that fails has none afterwards, whatever was kept before (`Passes.unresolved`). An error is
the outcome of the whole run (`Passes.run_error`).
-/

namespace Stencil.Render

open Markup (Block Attributes)

variable {settings : Settings}

/-! ## Errors end a run -/

/-- The point fails. -/
def Fails (settings : Settings) (p : Point) : Prop := ∃ e s', p.run settings = (.error e, s')

/-- What leads to an error has this error, and keeps nothing after it. -/
theorem Leads.run_error {p q : Point} (h : Leads settings p q) {e : Error} {s' : State}
    (hq : q.run settings = (.error e, s')) :
    ∃ s'', p.run settings = (.error e, s'') ∧ s''.kept = s'.kept := by
  cases h with
  | loop hv hi => exact ⟨s', (Point.run_loop hv hi).trans hq, rfl⟩
  | item => exact ⟨s'.pop, Point.run_items_error hq, rfl⟩
  | items h =>
    refine ⟨s', ?_, rfl⟩
    rw [Point.run_items h, hq]
    rfl
  | cond hv ht => exact ⟨s', (Point.run_cond_true hv ht).trans hq, rfl⟩
  | @static _ _ _ _ _ s hs => exact ⟨s.reattach s', Point.run_static_error hs hq, rfl⟩
  | inclusion hc hd hl hb =>
    refine ⟨s'.leave, ?_, rfl⟩
    rw [Point.run_inclusion hc hd hl hb, hq]
  | first => exact ⟨s', Point.run_blocks_error hq, rfl⟩
  | next h =>
    refine ⟨s', ?_, rfl⟩
    rw [Point.run_blocks_cons h, hq]
    rfl
  | bindStatic =>
    refine ⟨s', ?_, rfl⟩
    rw [Point.run_bindStatic, hq]
    rfl
  | bindLoop => exact ⟨s', hq, rfl⟩
  | bindCond => exact ⟨s', hq, rfl⟩
  | bindFirst => exact ⟨s', Point.run_bindBlocks_error hq, rfl⟩
  | bindNext h => exact ⟨s', (Point.run_bindBlocks_cons h).trans hq, rfl⟩

/-- An error anywhere in a run is the error of the run. -/
theorem Passes.run_error {p q : Point} (h : Passes settings p q) {e : Error} {s' : State}
    (hq : q.run settings = (.error e, s')) :
    ∃ s'', p.run settings = (.error e, s'') ∧ s''.kept = s'.kept := by
  induction h generalizing s' with
  | refl => exact ⟨s', hq, rfl⟩
  | tail _ h ih =>
    obtain ⟨s₁, h₁, hk₁⟩ := h.run_error hq
    obtain ⟨s₂, h₂, hk₂⟩ := ih h₁
    exact ⟨s₂, h₂, hk₂.trans hk₁⟩

theorem Passes.fails {p q : Point} (h : Passes settings p q) (hq : Fails settings q) :
    Fails settings p := by
  obtain ⟨e, s', hq⟩ := hq
  obtain ⟨s'', hp, -⟩ := h.run_error hq
  exact ⟨e, s'', hp⟩

/-! ## What a run passes on -/

/-- Nothing that was kept is lost on the way to the next point. -/
theorem Leads.grows {p q : Point} (h : Leads settings p q) : p.state.kept ≤ q.state.kept := by
  cases h with
  | loop hv hi => exact evaluate_grows hv
  | cond hv ht => exact evaluate_grows hv
  | @inclusion _ _ _ _ _ s s₁ s₂ _ _ _ hc hd hl hb =>
    have hk : s.kept ≤ s₂.kept := (load_grows hl).trans (evaluateBindings_grows hb)
    exact hk
  | @items _ _ _ _ _ _ s s' _ h =>
    have hk : s.kept ≤ s'.kept := Point.grows h trivial
    exact hk
  | @next _ _ _ _ _ s s' _ h =>
    have hk : s.kept ≤ s'.kept := Point.grows h trivial
    exact hk
  | @bindNext _ _ _ _ s s' _ h =>
    have hk : s.kept ≤ s'.kept := Point.grows h rfl
    exact hk
  | item | static | first | bindStatic | bindLoop | bindCond | bindFirst => exact le_rfl

/-- The second point belongs to the same tree and the same inclusion as the first one, and stands
there or further inside. -/
structure Inside (p q : Point) : Prop where
  chain : q.state.chain = p.state.chain
  holder : q.holder = p.holder
  level : p.task.level ≤ q.task.level

theorem Inside.trans {p q q' : Point} (h : Inside p q) (h' : Inside q q') : Inside p q' :=
  ⟨h'.chain.trans h.chain, h'.holder.trans h.holder, Nat.le_trans h.level h'.level⟩

/-- A run goes on inside of the same tree, or includes a template. -/
theorem Leads.inside_or {p q : Point} (h : Leads settings p q) :
    Inside p q ∨ ∃ name key, q.state.chain = name :: p.state.chain ∧ q.holder = .stored key := by
  cases h with
  | loop hv hi => exact .inl ⟨(frames_evaluate _).chain_eq hv, rfl, Nat.le_succ _⟩
  | cond hv ht => exact .inl ⟨(frames_evaluate _).chain_eq hv, rfl, Nat.le_succ _⟩
  | inclusion hc hd hl hb =>
    have hchain := ((frames_evaluateBindings _).chain_eq hb).trans
      ((frames_load _ _).chain_eq hl)
    exact .inr ⟨_, _, congrArg (List.cons _) hchain, rfl⟩
  | @items _ _ _ _ _ _ s s' _ h =>
    have hchain : s'.chain = s.chain := Point.chain_eq h
    exact .inl ⟨hchain, rfl, Nat.le_refl _⟩
  | @next _ _ _ _ _ s s' _ h =>
    have hchain : s'.chain = s.chain := Point.chain_eq h
    exact .inl ⟨hchain, rfl, Nat.le_refl _⟩
  | @bindNext _ _ _ _ s s' _ h =>
    have hchain : s'.chain = s.chain := Point.chain_eq h
    exact .inl ⟨hchain, rfl, Nat.le_refl _⟩
  | static | bindLoop | bindCond => exact .inl ⟨rfl, rfl, Nat.le_succ _⟩
  | item | first | bindStatic | bindFirst => exact .inl ⟨rfl, rfl, Nat.le_refl _⟩

theorem Leads.chain_sublist {p q : Point} (h : Leads settings p q) :
    p.state.chain.Sublist q.state.chain := by
  rcases h.inside_or with hi | ⟨name, key, hc, -⟩
  · exact hi.chain ▸ List.Sublist.refl _
  · exact hc ▸ List.sublist_cons_self _ _

/-! ## Where tasks stand -/

/-- The task stands where it says in its tree, if that is a stored template. -/
def Point.Placed (p : Point) : Prop :=
  ∀ key, p.holder = .stored key → ∃ t, Fields.get? key p.state.store.templates = some t ∧
    Located (Settings.bodyIn t.blocks) p.task

theorem Point.Placed.has {p : Point} (h : p.Placed) : p.state.kept.Has p.holder := by
  intro key hh
  obtain ⟨t, ht, -⟩ := h key hh
  exact Option.isSome_iff_exists.2 ⟨t, ht⟩

theorem Point.Placed.mono {p q : Point} (h : p.Placed) (hk : p.state.kept ≤ q.state.kept)
    (hh : q.holder = p.holder)
    (ht : ∀ root, Located (Settings.bodyIn root) p.task → Located (Settings.bodyIn root) q.task) :
    q.Placed := by
  intro key hkey
  obtain ⟨t, hget, hl⟩ := h key (hh ▸ hkey)
  obtain ⟨t', hget', hb, -⟩ := hk.templates key t hget
  exact ⟨t', hget', hb ▸ ht _ hl⟩

theorem Leads.placed {p q : Point} (h : Leads settings p q) (hp : p.Placed) : q.Placed := by
  have hk := h.grows
  cases h with
  | loop hv hi => exact hp.mono hk rfl fun _ => id
  | item => exact hp.mono hk rfl fun _ hl => ⟨_, hl, rfl⟩
  | items h => exact hp.mono hk rfl fun _ => id
  | cond hv ht => exact hp.mono hk rfl fun _ hl => ⟨_, hl, rfl⟩
  | static h => exact hp.mono hk rfl fun _ hl => ⟨_, hl, rfl⟩
  | @inclusion _ _ _ _ _ s s₁ s₂ key bindings t hc hd hl hb =>
    rintro _ ⟨⟩
    obtain ⟨t', ht', hblocks, -⟩ :=
      (evaluateBindings_grows hb).templates key t (load_stored hl).2
    exact ⟨t', ht', t'.blocks, rfl, hblocks⟩
  | first =>
    refine hp.mono hk rfl ?_
    rintro root ⟨whole, hwhole, hdrop⟩
    exact (bodyIn_cons hwhole hdrop).1
  | next h =>
    refine hp.mono hk rfl ?_
    rintro root ⟨whole, hwhole, hdrop⟩
    exact ⟨whole, hwhole, (bodyIn_cons hwhole hdrop).2⟩
  | bindStatic | bindLoop | bindCond | bindFirst | bindNext => exact nofun

/-! ## Ways -/

/-- The static block that the next points of a point are in the body of. -/
def Point.opens (p : Point) : List (Holder × Place) :=
  match p.task with
  | .block place (.static _ _ _) => [(p.holder, place)]
  | _ => []

/-- A run comes from one point to another one, and there these static blocks are under way, the
innermost one first. -/
inductive Way (settings : Settings) (p : Point) : List (Holder × Place) → Point → Prop
  | refl : Way settings p [] p
  | tail {opened q q'} (h : Way settings p opened q) (hq : Leads settings q q') :
      Way settings p (q.opens ++ opened) q'

theorem Passes.way {p q : Point} (h : Passes settings p q) : ∃ opened, Way settings p opened q := by
  induction h with
  | refl => exact ⟨[], .refl⟩
  | tail _ hq ih =>
    obtain ⟨opened, hw⟩ := ih
    exact ⟨_, hw.tail hq⟩

section

variable {p q : Point} {opened : List (Holder × Place)}

theorem Way.placed (h : Way settings p opened q) (hp : p.Placed) : q.Placed := by
  induction h with
  | refl => exact hp
  | tail _ hq ih => exact hq.placed ih

theorem Way.grows (h : Way settings p opened q) : p.state.kept ≤ q.state.kept := by
  induction h with
  | refl => exact le_rfl
  | tail _ hq ih => exact le_trans ih hq.grows

theorem Way.chain_sublist (h : Way settings p opened q) :
    p.state.chain.Sublist q.state.chain := by
  induction h with
  | refl => exact List.Sublist.refl _
  | tail _ hq ih => exact ih.trans hq.chain_sublist

theorem Way.inside_or (h : Way settings p opened q) :
    Inside p q ∨ ∃ key, q.holder = .stored key := by
  induction h with
  | refl => exact .inl ⟨rfl, rfl, Nat.le_refl _⟩
  | tail _ hq ih =>
    rcases hq.inside_or with hi | ⟨name, key, -, hh⟩
    · exact ih.imp (·.trans hi) fun ⟨key, hh⟩ => ⟨key, hi.holder.trans hh⟩
    · exact .inr ⟨key, hh⟩

/-- A static block that is under way was begun, and the rest of the way is in its body. -/
theorem Way.split (h : Way settings p opened q) {f : Holder × Place} (hf : f ∈ opened) :
    ∃ l raw body s before behind,
      Way settings p before ⟨f.1, .block f.2 (.static l raw body), s⟩ ∧
      Way settings ⟨f.1, .blocks f.2 0 body, s.detach⟩ behind q ∧ behind ⊆ opened := by
  induction h with
  | refl => cases hf
  | @tail opened q q' h hq ih =>
    rcases List.mem_append.1 hf with hf | hf
    · cases hq with
      | @static holder place l raw body s hs =>
        cases List.mem_singleton.1 hf
        exact ⟨l, raw, body, s, opened, [], h, .refl, List.nil_subset _⟩
      | loop | item | items | cond | inclusion | first | next | bindStatic | bindLoop | bindCond
      | bindFirst | bindNext => cases hf
    · obtain ⟨l, raw, body, s, before, behind, hbefore, hbehind, hsub⟩ := ih hf
      refine ⟨l, raw, body, s, before, q.opens ++ behind, hbefore, hbehind.tail hq, ?_⟩
      exact List.append_subset.2 ⟨List.subset_append_left _ _,
        List.Subset.trans hsub (List.subset_append_right _ _)⟩

end

/-- None of the static blocks has a text. -/
def Pending (opened : List (Holder × Place)) (s : State) : Prop :=
  ∀ f ∈ opened, s.resolved f.1 f.2 = none

/-! ## The same way again -/

/-- The point with the same task in another state, apart from the context. -/
def Point.within (u : State) (p : Point) : Point :=
  ⟨p.holder, p.task, { u with context := p.state.context }⟩

section

variable {p q : Point} {u : State} {opened : List (Holder × Place)}

/-- In a state that keeps more and that has a longer chain, a point fails or leads to the next point
again, as long as the static blocks on the way have no texts. It fails instead of including a
template that is in the chain. -/
theorem Leads.again (h : Leads settings p q) (hp : p.Placed)
    (hchain : p.state.chain.Sublist u.chain) (hnames : q.state.chain ⊆ u.chain)
    (hk : q.state.kept ≤ u.kept) (ho : Pending p.opens u) :
    Fails settings (p.within u) ∨ Inside p q ∧ Leads settings (p.within u) (q.within u) := by
  cases h with
  | @loop holder place l variableName collection attributes raw body s s' value items hv hi =>
    have hc := (frames_evaluate _).context_eq hv
    have hagain := evaluate_again (u := { u with context := s.context }) hv rfl hk
    refine .inr ⟨⟨(frames_evaluate _).chain_eq hv, rfl, Nat.le_succ _⟩, ?_⟩
    rw [Point.within, Point.within, hc]
    exact .loop hagain hi
  | @cond holder place l condition attributes raw body s s' value hv ht =>
    have hc := (frames_evaluate _).context_eq hv
    have hagain := evaluate_again (u := { u with context := s.context }) hv rfl hk
    refine .inr ⟨⟨(frames_evaluate _).chain_eq hv, rfl, Nat.le_succ _⟩, ?_⟩
    rw [Point.within, Point.within, hc]
    exact .cond hagain ht
  | inclusion hc hd hl hb =>
    exact .inl ⟨_, _, Point.run_inclusion_of_mem (hnames List.mem_cons_self)⟩
  | static h =>
    have hs := ho _ (List.mem_singleton_self _)
    exact .inr ⟨⟨rfl, rfl, Nat.le_succ _⟩, .static hs⟩
  | item => exact .inr ⟨⟨rfl, rfl, Nat.le_refl _⟩, .item⟩
  | first => exact .inr ⟨⟨rfl, rfl, Nat.le_refl _⟩, .first⟩
  | bindStatic => exact .inr ⟨⟨rfl, rfl, Nat.le_refl _⟩, .bindStatic⟩
  | bindLoop => exact .inr ⟨⟨rfl, rfl, Nat.le_succ _⟩, .bindLoop⟩
  | bindCond => exact .inr ⟨⟨rfl, rfl, Nat.le_succ _⟩, .bindCond⟩
  | bindFirst => exact .inr ⟨⟨rfl, rfl, Nat.le_refl _⟩, .bindFirst⟩
  | @items holder place variableName body item items s s' text h =>
    have hc : s'.pop.context = s.context := congrArg Context.pop (Point.context_eq h)
    have hn : s'.chain = s.chain := Point.chain_eq h
    rcases (Point.finishes h trivial).again_below hp.has rfl
      (u := State.push [(variableName, item)] { u with context := s.context }) ⟨rfl, hchain⟩ hk with
      h' | ⟨-, e, u', h'⟩
    · refine .inr ⟨⟨hn, rfl, Nat.le_refl _⟩, ?_⟩
      rw [Point.within, Point.within, hc]
      exact .items h'.run_eq
    · exact .inl ⟨e, u'.pop, Point.run_items_error h'.run_eq⟩
  | @next holder place index block blocks s s' text h =>
    have hc : s'.context = s.context := Point.context_eq h
    have hn : s'.chain = s.chain := Point.chain_eq h
    rcases (Point.finishes h trivial).again_below hp.has rfl (u := { u with context := s.context })
      ⟨rfl, hchain⟩ hk with h' | ⟨-, e, u', h'⟩
    · refine .inr ⟨⟨hn, rfl, Nat.le_refl _⟩, ?_⟩
      rw [Point.within, Point.within, hc]
      exact .next h'.run_eq
    · exact .inl ⟨e, u', Point.run_blocks_error h'.run_eq⟩
  | @bindNext place index block blocks s s' text h =>
    have hc : s'.context = s.context := Point.context_eq h
    have hn : s'.chain = s.chain := Point.chain_eq h
    rcases (Point.finishes h rfl).again_below hp.has rfl (u := { u with context := s.context })
      ⟨rfl, hchain⟩ hk with h' | ⟨-, e, u', h'⟩
    · refine .inr ⟨⟨hn, rfl, Nat.le_refl _⟩, ?_⟩
      rw [Point.within, Point.within, hc]
      exact .bindNext h'.run_eq
    · exact .inl ⟨e, u', Point.run_bindBlocks_error h'.run_eq⟩

/-- The same for a whole way, as long as it stays in its tree. -/
theorem Way.again (h : Way settings p opened q) (hp : p.Placed)
    (hchain : p.state.chain.Sublist u.chain) (hnames : q.state.chain ⊆ u.chain)
    (hk : q.state.kept ≤ u.kept) (ho : Pending opened u) :
    Fails settings (p.within u) ∨ Inside p q ∧ Passes settings (p.within u) (q.within u) := by
  induction h with
  | refl => exact .inr ⟨⟨rfl, rfl, Nat.le_refl _⟩, .refl⟩
  | @tail opened q q' h hq ih =>
    have hnames' : q.state.chain ⊆ u.chain := List.Subset.trans hq.chain_sublist.subset hnames
    have ho' : Pending opened u := fun f hf => ho f (List.mem_append_right _ hf)
    rcases ih hnames' (hq.grows.trans hk) ho' with hfails | ⟨hi, hpasses⟩
    · exact .inl hfails
    have hchain' : q.state.chain.Sublist u.chain := hi.chain.symm ▸ hchain
    have hopens : Pending q.opens u := fun f hf => ho f (List.mem_append_left _ hf)
    rcases hq.again (h.placed hp) hchain' hnames hk hopens with hfails | ⟨hi', hleads⟩
    · exact .inl (hpasses.fails hfails)
    · exact .inr ⟨hi.trans hi', hpasses.tail hleads⟩

end

section

variable {holder : Holder} {place : Place} {l : Markup.Location} {raw : String}
  {body body' : List Block} {s s' : State} {opened : List (Holder × Place)}

/-- A block has one body, however far the run has come. -/
theorem body_eq {key : String} (hp : Point.Placed ⟨.stored key, .blocks place 0 body, s⟩)
    (hp' : Point.Placed ⟨.stored key, .block place (.static l raw body'), s'⟩)
    (hk : s.kept ≤ s'.kept) : body' = body := by
  obtain ⟨t, ht, whole, hwhole, hdrop⟩ := hp key rfl
  obtain ⟨t', ht', hbody'⟩ := hp' key rfl
  obtain ⟨t'', ht'', hblocks, -⟩ := hk.templates key t ht
  cases ht'.symm.trans ht''
  have hbody' : Settings.bodyIn t'.blocks place = some body' := hbody'
  rw [hblocks, hwhole] at hbody'
  cases hbody'
  exact hdrop

/-- Where the body of a static block comes to the same block without having a text for it, nor for
those on the way, the body fails. -/
theorem Way.refused
    (h : Way settings ⟨holder, .blocks place 0 body, s.detach⟩ opened
      ⟨holder, .block place (.static l raw body'), s'⟩)
    (hp : Point.Placed ⟨holder, .blocks place 0 body, s.detach⟩) (ho : Pending opened s') :
    Fails settings ⟨holder, .blocks place 0 body', s'.detach⟩ := by
  have hnot : ¬ Inside ⟨holder, .blocks place 0 body, s.detach⟩
      ⟨holder, .block place (.static l raw body'), s'⟩ :=
    fun hi => Nat.not_succ_le_self _ hi.level
  obtain ⟨key, hh⟩ := h.inside_or.resolve_left hnot
  have hh : holder = .stored key := hh
  subst hh
  have hbody : body' = body := body_eq hp (h.placed hp) h.grows
  subst hbody
  have hk : s'.kept ≤ s'.detach.kept := le_rfl
  rcases h.again hp h.chain_sublist (List.Subset.refl _) hk ho with hfails | ⟨hi, -⟩
  · exact hfails
  · exact absurd hi hnot

end

/-! ## No text from inside -/

theorem Pending.congr {opened : List (Holder × Place)} {s s' : State} (h : Pending opened s)
    (hs : ∀ holder, s'.resolved holder = s.resolved holder) : Pending opened s' :=
  fun f hf => (congrFun (hs f.1) f.2).trans (h f hf)

theorem Pending.cons {opened : List (Holder × Place)} {s : State} {holder : Holder} {place : Place}
    (hs : s.resolved holder place = none) (h : Pending opened s) :
    Pending ((holder, place) :: opened) s :=
  List.forall_mem_cons.2 ⟨hs, h⟩

/-- A run gives no text to a static block that it is in the body of. -/
theorem Finishes.pending {p : Point} {r : Except Error String} {s' : State}
    (h : Finishes settings p r s') {root : Point} (hroot : root.Placed)
    {opened : List (Holder × Place)} (hw : Way settings root opened p)
    (ho : Pending opened p.state) : Pending opened s' := by
  induction h generalizing opened with
  | text | staticResolved | inclusionCycle | inclusionDepth | nil | itemsNil | bindText | bindInline
  | bindInclusion | bindNil => exact ho
  | inline hv | loopError hv | loopType hv | condError hv | condType hv | condFalse hv =>
    exact ho.congr (evaluate_resolved hv)
  | loop hv hi _ ih => exact ih (hw.tail (.loop hv hi)) (ho.congr (evaluate_resolved hv))
  | condTrue hv ht _ ih => exact ih (hw.tail (.cond hv ht)) (ho.congr (evaluate_resolved hv))
  | staticError hs _ ih =>
    have hbody := ih (hw.tail (.static hs)) (Pending.cons hs ho)
    exact fun f hf => hbody f (List.mem_cons_of_mem _ hf)
  | @static holder place l raw body text s s' hs h ih =>
    have hbody := ih (hw.tail (.static hs)) (Pending.cons hs ho)
    intro f hf
    have hne : ¬ (holder = f.1 ∧ place = f.2) := by
      rintro ⟨rfl, rfl⟩
      -- The block would be under way already, and its body would have failed.
      obtain ⟨l', raw', body', s₁, before, behind, hbefore, hbehind, hsub⟩ := hw.split hf
      have hp : Point.Placed ⟨_, .blocks _ 0 body', s₁.detach⟩ :=
        (hbefore.placed hroot).mono le_rfl rfl fun _ hl => ⟨_, hl, rfl⟩
      obtain ⟨e, s₂, herror⟩ := hbehind.refused hp fun f hf => ho f (hsub hf)
      cases h.run_eq.symm.trans herror
    exact (State.resolved_keep_of_ne hne).trans (hbody f (List.mem_cons_of_mem _ hf))
  | inclusionLoad _ _ hl => exact ho.congr (load_resolved hl)
  | inclusionBindings _ _ hl hb =>
    exact (ho.congr (load_resolved hl)).congr (evaluateBindings_resolved hb)
  | inclusion hc hd hl hb _ ih =>
    have ho₂ := (ho.congr (load_resolved hl)).congr (evaluateBindings_resolved hb)
    exact ih (hw.tail (.inclusion hc hd hl hb)) ho₂
  | firstError _ ih => exact ih (hw.tail .first) ho
  | next h _ ih iht => exact iht (hw.tail (.next h.run_eq)) (ih (hw.tail .first) ho)
  | itemError _ ih => exact ih (hw.tail .item) ho
  | items h _ ih iht => exact iht (hw.tail (.items h.run_eq)) (ih (hw.tail .item) ho)
  | bindStatic _ ih => exact ih (hw.tail .bindStatic) ho
  | bindLoop _ ih => exact ih (hw.tail .bindLoop) ho
  | bindCond _ ih => exact ih (hw.tail .bindCond) ho
  | bindFirstError _ ih => exact ih (hw.tail .bindFirst) ho
  | bindNext h _ ih iht => exact iht (hw.tail (.bindNext h.run_eq)) (ih (hw.tail .bindFirst) ho)

/-- At no point of a run there is a text for a static block that is under way. -/
theorem Way.pending {root p : Point} {opened : List (Holder × Place)}
    (h : Way settings root opened p) (hroot : root.Placed) : Pending opened p.state := by
  induction h with
  | refl => exact nofun
  | @tail opened q q' h hq ih =>
    cases hq with
    | loop hv hi => exact ih.congr (evaluate_resolved hv)
    | cond hv ht => exact ih.congr (evaluate_resolved hv)
    | static hs => exact Pending.cons hs ih
    | inclusion hc hd hl hb =>
      have hsame := (ih.congr (load_resolved hl)).congr (evaluateBindings_resolved hb)
      exact hsame
    | @items holder place variableName body item items s s' text hf =>
      exact (Point.finishes hf trivial).pending hroot (h.tail .item) ih
    | @next holder place index block blocks s s' text hf =>
      exact (Point.finishes hf trivial).pending hroot (h.tail .first) ih
    | @bindNext place index block blocks s s' text hf =>
      exact (Point.finishes hf rfl).pending hroot (h.tail .bindFirst) ih
    | item | first | bindStatic | bindLoop | bindCond | bindFirst => exact ih

/-- A static block that a run comes to and that fails there has no text afterwards. -/
theorem Passes.unresolved {root : Point} (hroot : root.Placed) {holder : Holder} {place : Place}
    {l : Markup.Location} {raw : String} {body : List Block} {s s' : State} {e : Error}
    (h : Passes settings root ⟨holder, .block place (.static l raw body), s⟩)
    (he : Point.run settings ⟨holder, .block place (.static l raw body), s⟩ = (.error e, s')) :
    s'.resolved holder place = none := by
  obtain ⟨opened, hw⟩ := h.way
  cases hs : s.resolved holder place with
  | some text => cases (Point.run_static_resolved hs).symm.trans he
  | none =>
    rcases hb : Point.run settings ⟨holder, .blocks place 0 body, s.detach⟩ with ⟨e' | text, s₁⟩
    · cases (Point.run_static_error hs hb).symm.trans he
      have hway := hw.tail (.static hs)
      exact (Point.finishes hb trivial).pending hroot hway (hway.pending hroot) (holder, place)
        List.mem_cons_self
    · cases (Point.run_static hs hb).symm.trans he

end Stencil.Render
