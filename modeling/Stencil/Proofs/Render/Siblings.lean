import Stencil.Proofs.Render.Ahead
import Stencil.Proofs.Render.Twins

/-!
# Two inclusions in either order

Two inclusions with nothing but text between them are rendered one after the other. If the limit of
inclusions is exceeded in one order, it is in the other one, unless the inclusion that then comes
first fails by itself, or keeps the text of a static block in which the other one exceeds the limit
(`limit_swap`).
-/

namespace Stencil.Render

open Markup (Block Attributes)

variable {settings : Settings} {base : Store} {holder : Holder} {place : Place} {index : Nat}

/-! ## States with the same texts -/

/-- From states that are ahead of each other a point has the same result. -/
theorem Ahead.run_eq {task : Task} {s u : State} (h : Ahead base s u)
    (hp : Ready settings ⟨holder, task, s⟩) (hu : Ready settings ⟨holder, task, u⟩)
    (hkept : KeptIn u.store s.store.resolved) :
    (Point.run settings ⟨holder, task, u⟩).1 = (Point.run settings ⟨holder, task, s⟩).1 := by
  have hahead : Ahead {} s u :=
    ⟨h.context, h.chain, h.cells, h.kept, fun key place text hk => .inl (hkept key place text hk)⟩
  rcases Point.follows _ hp u hu hahead with ⟨hsame, -⟩ | ⟨e, -, -, hm⟩
  · exact hsame
  · obtain ⟨key, place, l, raw, body, s', text, -, -, hbase, -⟩ := hm
    cases hbase

/-! ## An inclusion -/

/-- A task may be begun again after it. -/
theorem Outcome.ready {p : Point} {r : Except Error String} {s : State}
    (ho : Outcome settings p r s) (hp : Ready settings p) :
    Ready settings ⟨p.holder, p.task, s⟩ :=
  ⟨ho.sound, fun key hk => ⟨ho.le.templates key (hp.stored key hk).1, (hp.stored key hk).2⟩⟩

/-- A block that is an inclusion. -/
def IsInclusion (block : Block) : Prop :=
  ∃ l resource attributes, block = .inclusion l resource attributes

section

variable {x y : Block} {s s' : State} {text : String}

/-- It does not matter at which place an inclusion stands. -/
theorem IsInclusion.run_eq (hx : IsInclusion x) (place place' : Place) (s : State) :
    Point.run settings ⟨holder, .block place x, s⟩ =
      Point.run settings ⟨holder, .block place' x, s⟩ := by
  obtain ⟨l, resource, attributes, rfl⟩ := hx
  rfl

/-- Another inclusion may stand in the place of an inclusion. -/
theorem IsInclusion.ready (hx : IsInclusion x) (hy : IsInclusion y)
    (hp : Ready settings ⟨holder, .block place x, s⟩) :
    Ready settings ⟨holder, .block place y, s⟩ := by
  obtain ⟨l, resource, attributes, rfl⟩ := hx
  obtain ⟨l', resource', attributes', rfl⟩ := hy
  exact ⟨hp.sound, hp.stored⟩

/-- The state after an inclusion that has a text is ahead of the one before it. -/
theorem IsInclusion.ahead (hx : IsInclusion x) (hp : Ready settings ⟨holder, .block place x, s⟩)
    (h : Point.run settings ⟨holder, .block place x, s⟩ = (.ok text, s')) :
    Ahead s'.store s s' := by
  obtain ⟨l, resource, attributes, rfl⟩ := hx
  have ho := Point.outcome _ hp _ _ h
  have hi : Included settings resource attributes text s s' := included hp.sound h
  exact ⟨hi.context, Point.chain_eq h, hi.cells, ho.le.resolved, fun _ _ _ => .inr⟩

end

/-! ## Two inclusions -/

section

variable {x y : Block} {rest : List Block} {s sx sy sxy syx : State} {textx texty : String}
  (hx : IsInclusion x) (hy : IsInclusion y)

include hx hy

/-- The second inclusion is begun as the first one. -/
theorem ready_second (hp : Ready settings ⟨holder, .block place x, s⟩)
    (h : Point.run settings ⟨holder, .block place x, s⟩ = (.ok textx, sx)) :
    Ready settings ⟨holder, .block place y, sx⟩ :=
  hx.ready hy ((Point.outcome _ hp _ _ h).ready hp)

/-- An inclusion that has a text by itself has the same one after another inclusion. -/
theorem ahead_second (hp : Ready settings ⟨holder, .block place x, s⟩)
    (h : Point.run settings ⟨holder, .block place x, s⟩ = (.ok textx, sx))
    (hys : Point.run settings ⟨holder, .block place y, s⟩ = (.ok texty, sy)) :
    ∃ sxy, Point.run settings ⟨holder, .block place y, sx⟩ = (.ok texty, sxy) ∧
      Ahead sx.store sy sxy := by
  have hq := hx.ready hy hp
  rcases hr : Point.run settings ⟨holder, .block place y, sx⟩ with ⟨r, sxy⟩
  rcases Point.follows _ hq sx (ready_second hx hy hp h) (hx.ahead hp h) with
    ⟨hsame, ha⟩ | ⟨e, he, -⟩
  · rw [hys, hr] at hsame ha
    have hsame : r = .ok texty := hsame
    subst hsame
    exact ⟨sxy, rfl, ha⟩
  · rw [hys] at he
    cases he

/-- After two inclusions the same texts are kept, whatever the order. -/
theorem ahead_swap (hp : Ready settings ⟨holder, .block place x, s⟩)
    (h₁ : Point.run settings ⟨holder, .block place x, s⟩ = (.ok textx, sx))
    (h₂ : Point.run settings ⟨holder, .block place y, sx⟩ = (.ok texty, sxy))
    (hxy : Ahead sx.store sy sxy) (hyx : Ahead sy.store sx syx)
    (hle : Store.Le sy.store syx.store) :
    Ahead sy.store sxy syx ∧ KeptIn syx.store sxy.store.resolved := by
  have hq := ready_second hx hy hp h₁
  have hafter := hy.ahead hq h₂
  have hkept : KeptIn syx.store sxy.store.resolved := by
    intro key p text hk
    rcases hyx.origin key p text hk with h | h
    · exact hafter.kept key p text h
    · exact hxy.kept key p text h
  refine ⟨⟨?_, ?_, ?_, ?_, fun key p text hk => .inl (hkept key p text hk)⟩,
    hkept⟩
  · exact hyx.context.trans hafter.context.symm
  · exact hyx.chain.trans hafter.chain.symm
  · exact hyx.cells.trans hafter.cells.symm
  · intro key p text hk
    rcases hxy.origin key p text hk with h | h
    · exact hle.resolved key p text h
    · exact hyx.kept key p text h

end

/-! ## Text between two inclusions -/

/-- A block that is text. -/
def IsText (block : Block) : Prop := ∃ l content, block = .text l content

section

variable {block : Block} {texts blocks : List Block} {s s' : State} {text : String} {e : Error}

/-- If a block has a text, the blocks from it on fail as those behind it do. -/
theorem blocks_error_iff
    (h : Point.run settings ⟨holder, .block (index :: place) block, s⟩ = (.ok text, s')) :
    (Point.run settings ⟨holder, .blocks place index (block :: blocks), s⟩).1 = .error e ↔
      (Point.run settings ⟨holder, .blocks place (index + 1) blocks, s'⟩).1 = .error e := by
  rw [Point.run_blocks_cons h]
  dsimp only
  cases (Point.run settings ⟨holder, .blocks place (index + 1) blocks, s'⟩).1 with
  | error e' => exact Iff.rfl
  | ok rest => exact ⟨nofun, nofun⟩

theorem texts_error_iff (h : ∀ b ∈ texts, IsText b) (index : Nat) :
    (Point.run settings ⟨holder, .blocks place index (texts ++ blocks), s⟩).1 = .error e ↔
      (Point.run settings ⟨holder, .blocks place (index + texts.length) blocks, s⟩).1 =
        .error e := by
  induction texts generalizing index with
  | nil => exact Iff.rfl
  | cons b texts ih =>
    obtain ⟨l, content, rfl⟩ := h b List.mem_cons_self
    have hb : Point.run settings ⟨holder, .block (index :: place) (.text l content), s⟩ =
        (.ok content, s) := rfl
    have hlength : index + (Block.text l content :: texts).length = index + 1 + texts.length := by
      rw [List.length_cons]
      omega
    rw [List.cons_append, blocks_error_iff hb, hlength]
    exact ih (fun b hb => h b (List.mem_cons_of_mem _ hb)) (index + 1)

theorem ready_texts (h : ∀ b ∈ texts, IsText b) (index : Nat)
    (hp : Ready settings ⟨holder, .blocks place index (texts ++ blocks), s⟩) :
    Ready settings ⟨holder, .blocks place (index + texts.length) blocks, s⟩ := by
  induction texts generalizing index with
  | nil => exact hp
  | cons b texts ih =>
    obtain ⟨l, content, rfl⟩ := h b List.mem_cons_self
    have hb : Point.run settings ⟨holder, .block (index :: place) (.text l content), s⟩ =
        (.ok content, s) := rfl
    have hlength : index + (Block.text l content :: texts).length = index + 1 + texts.length := by
      rw [List.length_cons]
      omega
    rw [hlength]
    exact ih (fun b hb => h b (List.mem_cons_of_mem _ hb)) (index + 1)
      ((Leads.next hb).ready_next hp)

end

section

variable {x y : Block} {texts rest : List Block} {s sx sy sxy : State} {textx texty : String}
  (hx : IsInclusion x) (hy : IsInclusion y) (htexts : ∀ b ∈ texts, IsText b)

include hx hy htexts

/-- What follows two inclusions has the same result, whatever their order. -/
theorem rest_swap (hp : Ready settings ⟨holder, .blocks place index (x :: (texts ++ y :: rest)), s⟩)
    (h₁ : Point.run settings ⟨holder, .block (index :: place) x, s⟩ = (.ok textx, sx))
    (h₂ : Point.run settings ⟨holder, .block (index :: place) y, sx⟩ = (.ok texty, sxy))
    (hs : Point.run settings ⟨holder, .block (index :: place) y, s⟩ = (.ok texty, sy)) :
    ∃ syx, Point.run settings ⟨holder, .block (index :: place) x, sy⟩ = (.ok textx, syx) ∧
      (Point.run settings
        ⟨holder, .blocks place (index + 1 + texts.length + 1) rest, syx⟩).1 =
        (Point.run settings
          ⟨holder, .blocks place (index + 1 + texts.length + 1) rest, sxy⟩).1 := by
  have hpx := Leads.first.ready_next hp
  have hpy := hx.ready hy hpx
  have hq := ready_second hy hx hpy hs
  obtain ⟨syx, h₂₁, hyx⟩ := ahead_second hy hx hpy hs h₁
  obtain ⟨sxy', h₁₂, hxy⟩ := ahead_second hx hy hpx h₁ hs
  cases h₁₂.symm.trans h₂
  have ho := Point.outcome _ hq _ _ h₂₁
  obtain ⟨hahead, hkept⟩ := ahead_swap hx hy hpx h₁ h₂ hxy hyx ho.le
  have hrest := (Leads.next ((hy.run_eq _ (index :: place) sx).trans h₂)).ready_next
    (ready_texts htexts (index + 1) ((Leads.next h₁).ready_next hp))
  refine ⟨syx, h₂₁, hahead.run_eq hrest ⟨ho.sound, ?_⟩ hkept⟩
  intro key hk
  exact ⟨ho.le.templates key (hq.stored key hk).1, (hrest.stored key hk).2⟩

/-- If the limit is exceeded in one order, it is in the other one, unless the inclusion that then
comes first fails by itself or masks the error. -/
theorem limit_swap {limit : Nat}
    (hp : Ready settings ⟨holder, .blocks place index (x :: (texts ++ y :: rest)), s⟩)
    (h : (Point.run settings ⟨holder, .blocks place index (x :: (texts ++ y :: rest)), s⟩).1 =
      .error (.inclusionDepthExceeded limit)) :
    (Point.run settings ⟨holder, .blocks place index (y :: (texts ++ x :: rest)), s⟩).1 =
      .error (.inclusionDepthExceeded limit) ∨
    (∃ e, (Point.run settings ⟨holder, .block (index :: place) y, s⟩).1 = .error e ∧
      (Point.run settings ⟨holder, .blocks place index (y :: (texts ++ x :: rest)), s⟩).1 =
        .error e) ∨
    Masked settings (Point.run settings ⟨holder, .block (index :: place) y, s⟩).2.store
      ⟨holder, .block (index :: place) x, s⟩ (.inclusionDepthExceeded limit) := by
  have hpx := Leads.first.ready_next hp
  have hpy := hx.ready hy hpx
  rcases hs : Point.run settings ⟨holder, .block (index :: place) y, s⟩ with ⟨e | texty, sy⟩
  · refine .inr (.inl ⟨e, rfl, ?_⟩)
    rw [Point.run_blocks_error hs]
  rcases h₁ : Point.run settings ⟨holder, .block (index :: place) x, s⟩ with ⟨e | textx, sx⟩
  · -- the first inclusion fails, and fails after the second one as well if that does not mask it
    rw [Point.run_blocks_error h₁] at h
    cases h
    rcases Point.follows _ hpx sy (ready_second hy hx hpy hs) (hy.ahead hpy hs) with
      ⟨hsame, -⟩ | ⟨e, he, hm⟩
    · left
      rcases h₂₁ : Point.run settings ⟨holder, .block (index :: place) x, sy⟩ with ⟨r, syx⟩
      rw [h₁, h₂₁] at hsame
      have hsame : r = .error (.inclusionDepthExceeded limit) := hsame
      subst hsame
      rw [blocks_error_iff hs, texts_error_iff htexts,
        Point.run_blocks_error ((hx.run_eq _ (index :: place) sy).trans h₂₁)]
    · rw [h₁] at he
      cases he
      exact .inr (.inr hm)
  · -- the second inclusion has its text after the first one as well, so it is the rest that fails
    left
    obtain ⟨sxy, h₂, -⟩ := ahead_second hx hy hpx h₁ hs
    obtain ⟨syx, h₂₁, hrest⟩ := rest_swap hx hy htexts hp h₁ h₂ hs
    rw [blocks_error_iff h₁, texts_error_iff htexts,
      blocks_error_iff ((hy.run_eq _ (index :: place) sx).trans h₂)] at h
    rw [blocks_error_iff hs, texts_error_iff htexts,
      blocks_error_iff ((hx.run_eq _ (index :: place) sy).trans h₂₁), hrest]
    exact h

end

end Stencil.Render
