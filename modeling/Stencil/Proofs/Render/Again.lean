import Stencil.Proofs.Render.Growth
import Stencil.Proofs.Render.Known

/-!
# Renderings that fail again

What a rendering kept before it failed does not keep it from failing again. The static blocks in
whose bodies it failed have no texts after it (`resolved_of_body`): a body does not depend on the
text that is kept for its own block, however it is reached, and in the tree that the rendering began
with, a body is the only place where the texts of the blocks inside of it are kept.

So the same rendering comes to the same error when it is done again, and keeps nothing more
(`Finishes.again_error`).
-/

namespace Stencil.Render

open Markup (Block Attributes)

variable {settings : Settings}

/-! ## Static blocks of stored templates -/

section

variable {known : String → Place → Option String} {key : String} {place : Place}

/-- The known texts, apart from that of one static block. -/
def without (known : String → Place → Option String) (key : String) (place : Place) :
    String → Place → Option String :=
  fun other p => if other = key ∧ p = place then none else known other p

theorem without_self : without known key place key place = none := if_pos ⟨rfl, rfl⟩

/-- A text can be yielded without the text of a given static block being known, or the body of that
block yields a text so. -/
theorem Yields.without {body : List Block} (hbody : settings.bodyAt key place = some body)
    {other : String} {c : Context} {task : Task} {text : String}
    (h : Yields settings known other c task text) (hl : Located (settings.bodyAt other) task) :
    Yields settings (without known key place) other c task text ∨
      ∃ text', Yields settings (Render.without known key place) key Context.empty
        (.blocks place 0 body) text' := by
  induction h with
  | text => exact .inl .text
  | inline hv => exact .inl (.inline hv)
  | loop hv hi _ ih => exact (ih hl).imp_left (.loop hv hi)
  | condTrue hv ht _ ih => exact (ih ⟨_, hl, rfl⟩).imp_left (.condTrue hv ht)
  | condFalse hv ht => exact .inl (.condFalse hv ht)
  | @static other c p l raw body' text hk h ih =>
    rcases ih ⟨_, hl, rfl⟩ with h' | h'
    · by_cases hs : other = key ∧ p = place
      · obtain ⟨rfl, rfl⟩ := hs
        cases hbody.symm.trans hl
        exact .inr ⟨text, h'⟩
      · exact .inl (.static ((if_neg hs).trans hk) h')
    · exact .inr h'
  | @inclusion other c p l resource attributes blocks bindings text hs hb _ ih =>
    have hblocks : Located (settings.bodyAt (settings.storedName (canonicalName settings resource)))
        (.blocks [] 0 blocks) := by
      refine ⟨blocks, ?_, rfl⟩
      rw [Settings.bodyAt, hs]
      rfl
    exact (ih hblocks).imp_left (.inclusion hs hb)
  | nil => exact .inl .nil
  | cons _ _ ih iht =>
    obtain ⟨whole, hwhole, hdrop⟩ := hl
    obtain ⟨hblock, hrest⟩ := bodyAt_cons hwhole hdrop
    rcases ih hblock with h | h
    · exact (iht ⟨whole, hwhole, hrest⟩).imp_left (.cons h)
    · exact .inr h
  | itemsNil => exact .inl .itemsNil
  | itemsCons _ _ ih iht =>
    rcases ih ⟨_, hl, rfl⟩ with h | h
    · exact (iht hl).imp_left (.itemsCons h)
    · exact .inr h

end

/-! ## Static blocks of the own tree -/

/-- A task in the tree that the rendering began with keeps no other texts of this tree than those of
the static blocks inside of it. -/
theorem Finishes.get?_cells {p : Point} {r : Except Error String} {s' : State}
    (h : Finishes settings p r s') (hp : Ready settings p) (hh : p.holder = .own) {place : Place}
    (hplace : place.length < p.task.level) :
    s'.cells.get? place = p.state.cells.get? place := by
  have hread : ∀ {s s' : State}, Reads settings s s' →
      s'.cells.get? place = s.cells.get? place :=
    fun hr => congrArg (Cells.get? place) hr.cells
  induction h with
  | text | staticResolved | inclusionCycle | inclusionDepth | nil | itemsNil | bindText | bindInline
  | bindInclusion | bindNil => rfl
  | inline hv | loopError hv | loopType hv | condError hv | condType hv | condFalse hv =>
    exact hread (evaluate_inv hp.sound hv).2
  | loop hv hi _ ih =>
    have hq := (Leads.loop hv hi).ready_next hp
    exact (ih hq hh (Nat.lt_succ_of_lt hplace)).trans (hread (evaluate_inv hp.sound hv).2)
  | condTrue hv ht _ ih =>
    have hq := (Leads.cond hv ht).ready_next hp
    exact (ih hq hh (Nat.lt_succ_of_lt hplace)).trans (hread (evaluate_inv hp.sound hv).2)
  | staticError hs _ ih => exact ih ((Leads.static hs).ready_next hp) hh (Nat.lt_succ_of_lt hplace)
  | @static holder p l raw body text s s' hs _ ih =>
    have hbody := ih ((Leads.static hs).ready_next hp) hh (Nat.lt_succ_of_lt hplace)
    cases hh
    show (s'.cells.keep p text).get? place = _
    rw [Cells.get?_keep, if_neg, Option.or_none]
    · exact hbody
    · rintro rfl
      exact Nat.lt_irrefl _ hplace
  | inclusionLoad _ _ hl => exact hread (load_inv hp.sound hl).2
  | inclusionBindings _ _ hl hb =>
    have hr := (load_inv hp.sound hl).2
    exact hread (hr.trans (evaluateBindings_inv hr.sound hb).2)
  | inclusion hc hd hl hb h _ =>
    -- The included template is a stored one, which leaves the own tree alone.
    have hr := (load_inv hp.sound hl).2
    have hq := (Leads.inclusion hc hd hl hb).ready_next hp
    have hcells := (Point.outcome _ hq _ _ h.run_eq).cells _ rfl
    have hbindings := hread (hr.trans (evaluateBindings_inv hr.sound hb).2)
    exact (congrArg (Cells.get? place) hcells).trans hbindings
  | firstError _ ih => exact ih (Leads.first.ready_next hp) hh hplace
  | next h _ ih iht =>
    have hq := (Leads.next h.run_eq).ready_next hp
    exact (iht hq hh hplace).trans (ih (Leads.first.ready_next hp) hh hplace)
  | itemError _ ih => exact ih (Leads.item.ready_next hp) hh hplace
  | items h _ ih iht =>
    have hq := (Leads.items h.run_eq).ready_next hp
    exact (iht hq hh hplace).trans (ih (Leads.item.ready_next hp) hh hplace)
  | bindStatic _ ih => exact ih (Leads.bindStatic.ready_next hp) hh hplace
  | bindLoop _ ih => exact ih (Leads.bindLoop.ready_next hp) hh (Nat.lt_succ_of_lt hplace)
  | bindCond _ ih => exact ih (Leads.bindCond.ready_next hp) hh (Nat.lt_succ_of_lt hplace)
  | bindFirstError _ ih => exact ih (Leads.bindFirst.ready_next hp) hh hplace
  | bindNext h _ ih iht =>
    have hq := (Leads.bindNext h.run_eq).ready_next hp
    exact (iht hq hh hplace).trans (ih (Leads.bindFirst.ready_next hp) hh hplace)

/-! ## The body of a static block -/

/-- The text of a static block is not kept by its own body, whatever the outcome of the body is. -/
theorem resolved_of_body {holder : Holder} {place : Place} {l : Markup.Location} {raw : String}
    {body : List Block} {s s' : State} {r : Except Error String}
    (hp : Ready settings ⟨holder, .block place (.static l raw body), s⟩)
    (hs : s.resolved holder place = none)
    (h : Finishes settings ⟨holder, .blocks place 0 body, s.detach⟩ r s') :
    s'.resolved holder place = none := by
  have hq := (Leads.static hs).ready_next hp
  cases holder with
  | own => exact (h.get?_cells hq rfl (Nat.lt_succ_self _)).trans hs
  | stored key =>
    have ho := Point.outcome _ hq _ _ h.run_eq
    cases hres : s'.store.resolved key place with
    | none => exact hres
    | some text =>
      -- The text would be one that the body yields from what is known without it.
      obtain ⟨body', hbody', hy⟩ := ho.sound.statics key place text hres
      have hbody : settings.bodyAt key place = some body := (hp.stored key rfl).2
      cases hbody.symm.trans hbody'
      obtain ⟨text', hy'⟩ : ∃ text', Yields settings (without s'.store.resolved key place) key
          Context.empty (.blocks place 0 body) text' := by
        rcases hy.without hbody ⟨body, hbody, rfl⟩ with hy' | hy'
        · exact ⟨text, hy'⟩
        · exact hy'
      have hkept : KeptIn s.store (without s'.store.resolved key place) := by
        intro other p known hk
        refine (if_neg ?_).trans (ho.le.resolved other p known hk)
        rintro ⟨rfl, rfl⟩
        cases hs.symm.trans hk
      have hyielded := yielded_of_yields hy' rfl hq hkept h.run_eq
      cases without_self.symm.trans (hyielded.1 key place text hres)

/-! ## The same error again -/

section

variable {s s' u : State} {e : Error}

theorem evaluate_error_again {source : String} (h : run (evaluate source) s = (.error e, s'))
    (hc : u.context = s.context) (hk : u.kept = s'.kept) :
    run (evaluate source) u = (.error e, u) :=
  evaluate_of_get?_eq h hc (congrArg (fun k => Fields.get? source k.expressions) hk)

theorem evaluateBindings_error_again {bindings : List (String × String)}
    (h : run (evaluateBindings bindings) s = (.error e, s')) (hc : u.context = s.context)
    (hk : u.kept = s'.kept) : run (evaluateBindings bindings) u = (.error e, u) := by
  induction bindings generalizing s with
  | nil => cases h
  | cons binding bindings ih =>
    rcases evaluateBindings_cons_cases h with
      ⟨e', hv, hr⟩ | ⟨value, s₁, hv, ⟨e', hb, hr⟩ | ⟨values, -, hr⟩⟩
    · cases hr
      exact run_bind_error (evaluate_error_again hv hc hk)
    · cases hr
      have hc₁ : u.context = s₁.context := hc.trans ((frames_evaluate _).context_eq hv).symm
      have hagain := evaluate_again hv hc ((evaluateBindings_grows hb).trans hk.ge)
      exact (run_bind_ok hagain).trans (run_bind_error (ih hb hc₁))
    · cases hr

/-- A template that could not be loaded is not there, and is asked for again. -/
theorem load_error_again {name : String} (h : run (load settings name) s = (.error e, s'))
    (hk : u.kept = s'.kept) :
    ∃ u', run (load settings name) u = (.error e, u') ∧ u'.kept = u.kept := by
  rcases run_load_inv h with ⟨hloader, hr, rfl⟩ | ⟨loader, store, hloader, hl, rfl⟩
  · cases hr
    refine ⟨u, ?_, rfl⟩
    rw [run, load, hloader]
  · rcases Store.load_cases hl with ⟨t, -, hr, -⟩ | ⟨hn, ⟨t, -, hr, -⟩ | ⟨e', hread, hr, rfl⟩⟩
    · cases hr
    · cases hr
    · cases hr
      have htemplates : u.store.templates = s.store.templates := congrArg Kept.templates hk
      rw [← htemplates] at hn
      exact ⟨_, run_load hloader (Store.load_of_error hn hread), rfl⟩

end

theorem Ready.has {p : Point} (hp : Ready settings p) : p.state.kept.Has p.holder :=
  fun key hh => (hp.stored key hh).1

/-- A point that failed fails with the same error from every state that keeps just what there was
after it, and keeps nothing more. -/
theorem Finishes.again_error {p : Point} {r : Except Error String} {s' u : State}
    (h : Finishes settings p r s') (hp : Ready settings p) {e : Error} (hr : r = .error e)
    (hu : Resumes Eq p.state u) (hk : u.kept = s'.kept) :
    ∃ u', Finishes settings ⟨p.holder, p.task, u⟩ r u' ∧ u'.kept = u.kept := by
  induction h generalizing e u with
  | @inline holder place l expression s s' value hv =>
    cases value with
    | error e' => exact ⟨u, .inline (evaluate_error_again hv hu.context hk), rfl⟩
    | ok value => cases hr
  | loopError hv => exact ⟨u, .loopError (evaluate_error_again hv hu.context hk), rfl⟩
  | loopType hv hi => exact ⟨u, .loopType (evaluate_again hv hu.context hk.ge) hi, rfl⟩
  | loop hv hi h ih =>
    have hq := (Leads.loop hv hi).ready_next hp
    obtain ⟨u', h', hk'⟩ := ih hq hr (hu.after (frames_evaluate _) hv) hk
    exact ⟨u', .loop (evaluate_again hv hu.context (h.grows.trans hk.ge)) hi h', hk'⟩
  | condError hv => exact ⟨u, .condError (evaluate_error_again hv hu.context hk), rfl⟩
  | condType hv ht => exact ⟨u, .condType (evaluate_again hv hu.context hk.ge) ht, rfl⟩
  | condTrue hv ht h ih =>
    have hq := (Leads.cond hv ht).ready_next hp
    obtain ⟨u', h', hk'⟩ := ih hq hr (hu.after (frames_evaluate _) hv) hk
    exact ⟨u', .condTrue (evaluate_again hv hu.context (h.grows.trans hk.ge)) ht h', hk'⟩
  | @staticError holder place l raw body e' s s' hs h ih =>
    -- A text for this block would mask the error, but its own body cannot have kept one.
    have hle : u.kept ≤ s'.kept := hk.le
    have hnone := State.resolved_eq_none_of_le hle (resolved_of_body hp hs h)
    obtain ⟨u', h', hk'⟩ := ih ((Leads.static hs).ready_next hp) hr hu.detach hk
    exact ⟨u.reattach u', .staticError hnone h', hk'⟩
  | @inclusionCycle holder place l resource attributes s hc =>
    refine ⟨u, ?_, rfl⟩
    rw [hu.chain] at hc ⊢
    exact .inclusionCycle hc
  | inclusionDepth hc hd => exact ⟨u, .inclusionDepth (hu.chain ▸ hc) (hu.chain ▸ hd), rfl⟩
  | inclusionLoad hc hd hl =>
    obtain ⟨u', hl', hk'⟩ := load_error_again hl hk
    exact ⟨u', .inclusionLoad (hu.chain ▸ hc) (hu.chain ▸ hd) hl', hk'⟩
  | inclusionBindings hc hd hl hb =>
    obtain ⟨t', hl', -⟩ := load_again hl ((evaluateBindings_grows hb).trans hk.ge)
    have hu₁ := hu.after (frames_load _ _) hl
    have hb' := evaluateBindings_error_again hb hu₁.context hk
    exact ⟨u, .inclusionBindings (hu.chain ▸ hc) (hu.chain ▸ hd) hl' hb', rfl⟩
  | @inclusion holder place l resource attributes s s₁ s₂ s' key bindings r t hc hd hl hb h ih =>
    have hkept := h.grows.trans hk.ge
    obtain ⟨t', hl', ht⟩ := load_again hl ((evaluateBindings_grows hb).trans hkept)
    have hu₁ := hu.after (frames_load _ _) hl
    have hb' := evaluateBindings_again hb hu₁.context hkept
    have hu₂ := hu₁.after (frames_evaluateBindings _) hb
    have hq := (Leads.inclusion hc hd hl hb).ready_next hp
    obtain ⟨u', h', hk'⟩ := ih hq hr
      (hu₂.enter (canonicalName settings resource) bindings (congrArg _ hu₂.chain)) hk
    rw [← ht] at h'
    exact ⟨u'.leave, .inclusion (hu.chain ▸ hc) (hu.chain ▸ hd) hl' hb' h', hk'⟩
  | firstError _ ih =>
    cases hr
    obtain ⟨u', h', hk'⟩ := ih (Leads.first.ready_next hp) rfl hu hk
    exact ⟨u', .firstError h', hk'⟩
  | @next holder place index block blocks s s' s'' text r h ht _ iht =>
    cases r with
    | ok rest => cases hr
    | error e' =>
      have hagain := h.again (Leads.first.ready_next hp).has rfl hu (ht.grows.trans hk.ge)
      have hq := (Leads.next h.run_eq).ready_next hp
      obtain ⟨u', h', hk'⟩ := iht hq rfl (hu.finishes h) hk
      exact ⟨u', .next hagain h', hk'⟩
  | itemError _ ih =>
    cases hr
    obtain ⟨u', h', hk'⟩ := ih (Leads.item.ready_next hp) rfl (hu.push _) hk
    exact ⟨u'.pop, .itemError h', hk'⟩
  | @items holder place variableName body item items s s' s'' text r h ht _ iht =>
    cases r with
    | ok rest => cases hr
    | error e' =>
      have hagain := h.again (Leads.item.ready_next hp).has rfl (hu.push _) (ht.grows.trans hk.ge)
      have hq := (Leads.items h.run_eq).ready_next hp
      obtain ⟨u', h', hk'⟩ := iht hq rfl (hu.item h) hk
      exact ⟨u', .items hagain h', hk'⟩
  | @bindStatic place l raw body s s' r _ ih =>
    cases r with
    | ok text => cases hr
    | error e' =>
      obtain ⟨u', h', hk'⟩ := ih (Leads.bindStatic.ready_next hp) rfl hu hk
      exact ⟨u', .bindStatic h', hk'⟩
  | bindLoop _ ih =>
    obtain ⟨u', h', hk'⟩ := ih (Leads.bindLoop.ready_next hp) hr hu hk
    exact ⟨u', .bindLoop h', hk'⟩
  | bindCond _ ih =>
    obtain ⟨u', h', hk'⟩ := ih (Leads.bindCond.ready_next hp) hr hu hk
    exact ⟨u', .bindCond h', hk'⟩
  | bindFirstError _ ih =>
    cases hr
    obtain ⟨u', h', hk'⟩ := ih (Leads.bindFirst.ready_next hp) rfl hu hk
    exact ⟨u', .bindFirstError h', hk'⟩
  | bindNext h ht _ iht =>
    have hagain := h.again (Leads.bindFirst.ready_next hp).has rfl hu (ht.grows.trans hk.ge)
    have hq := (Leads.bindNext h.run_eq).ready_next hp
    obtain ⟨u', h', hk'⟩ := iht hq hr (hu.finishes h) hk
    exact ⟨u', .bindNext hagain h', hk'⟩
  | text | condFalse | staticResolved | static | nil | itemsNil | bindText | bindInline
  | bindInclusion | bindNil => cases hr

/-- The static blocks of stored templates are not bound. -/
theorem Ready.proper {p : Point} (hp : Ready settings p) : p.Proper := by
  obtain ⟨holder, task, s⟩ := p
  cases holder with
  | own => cases task <;> trivial
  | stored key =>
    have hl := (hp.stored key rfl).2
    cases task with
    | block | blocks | loop => trivial
    | bindBlock | bindBlocks => exact absurd hl id

/-- A point that is begun again, where just that is kept which there was after it, has the same
result, and keeps nothing more. -/
theorem Point.repeats {p : Point} (hp : Ready settings p) {u : State} (hu : Resumes Eq p.state u)
    (hk : u.kept = (p.run settings).2.kept) :
    (Point.run settings ⟨p.holder, p.task, u⟩).1 = (p.run settings).1 ∧
      (Point.run settings ⟨p.holder, p.task, u⟩).2.kept = u.kept := by
  rcases hrun : p.run settings with ⟨r, s'⟩
  rw [hrun] at hk
  have h := (p.ends hp.proper).finishes hrun
  cases r with
  | ok text =>
    rw [(h.again hp.has rfl hu hk.ge).run_eq]
    exact ⟨rfl, rfl⟩
  | error e =>
    obtain ⟨u', h', hk'⟩ := h.again_error hp rfl hu hk
    rw [h'.run_eq]
    exact ⟨rfl, hk'⟩

end Stencil.Render
