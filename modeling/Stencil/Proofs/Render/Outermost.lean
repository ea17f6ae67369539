import Stencil.Proofs.Render.Growth
import Stencil.Proofs.Render.Outcome

/-!
# Outermost static blocks

The outermost static blocks of a tree are those that no other static block is around. The binding of
a tree renders them one after the other (`bindBlocks_eq`), and all of them have texts when it
succeeds (`isBound_of_bindEach`).

From then on the tree stays as it is, whatever is run (`Finishes.bears`). A static block inside of
another one may still have no text, but no run comes to it: the body around it is not begun any
more.
-/

namespace Stencil.Render

open Markup (Block Attributes)

/-! ## The blocks -/

mutual

/-- The outermost static blocks in the block at a place, with their places. -/
def outermost (place : Place) : Block → List (Place × Block)
  | .static l raw body => [(place, .static l raw body)]
  | .loop _ _ _ _ _ body => outermostIn place 0 body
  | .cond _ _ _ _ body => outermostIn place 0 body
  | _ => []

/-- The outermost static blocks in the blocks at a place, from the index `index` on. -/
def outermostIn (place : Place) (index : Nat) : List Block → List (Place × Block)
  | [] => []
  | block :: blocks => outermost (index :: place) block ++ outermostIn place (index + 1) blocks

end

/-- Whether a block is a static one. -/
def IsStatic (block : Block) : Prop := ∃ l raw body, block = .static l raw body

mutual

theorem isStatic_of_mem_outermost {place : Place} {block : Block} {b : Place × Block}
    (h : b ∈ outermost place block) : IsStatic b.2 := by
  match block with
  | .static l raw body =>
    cases List.mem_singleton.1 h
    exact ⟨l, raw, body, rfl⟩
  | .loop _ _ _ _ _ body =>
    have h : b ∈ outermostIn place 0 body := h
    exact isStatic_of_mem_outermostIn h
  | .cond _ _ _ _ body =>
    have h : b ∈ outermostIn place 0 body := h
    exact isStatic_of_mem_outermostIn h
  | .text _ _ => cases h
  | .inline _ _ => cases h
  | .inclusion _ _ _ => cases h

theorem isStatic_of_mem_outermostIn {place : Place} {index : Nat} {blocks : List Block}
    {b : Place × Block} (h : b ∈ outermostIn place index blocks) : IsStatic b.2 := by
  match blocks with
  | [] => cases h
  | block :: blocks =>
    rcases List.mem_append.1 h with h | h
    · exact isStatic_of_mem_outermost h
    · exact isStatic_of_mem_outermostIn h

end

mutual

/-- The outermost static blocks stand where their places say. -/
theorem located_of_mem_outermost {root : List Block} {place : Place} {block : Block}
    {b : Place × Block} (hl : Located (Settings.bodyIn root) (.block place block))
    (hb : b ∈ outermost place block) : Located (Settings.bodyIn root) (.block b.1 b.2) := by
  match block with
  | .static _ _ _ =>
    cases List.mem_singleton.1 hb
    exact hl
  | .loop _ _ _ _ _ body =>
    have hb : b ∈ outermostIn place 0 body := hb
    exact located_of_mem_outermostIn ⟨body, hl, rfl⟩ hb
  | .cond _ _ _ _ body =>
    have hb : b ∈ outermostIn place 0 body := hb
    exact located_of_mem_outermostIn ⟨body, hl, rfl⟩ hb
  | .text _ _ => cases hb
  | .inline _ _ => cases hb
  | .inclusion _ _ _ => cases hb

theorem located_of_mem_outermostIn {root : List Block} {place : Place} {index : Nat}
    {blocks : List Block} {b : Place × Block}
    (hl : Located (Settings.bodyIn root) (.blocks place index blocks))
    (hb : b ∈ outermostIn place index blocks) :
    Located (Settings.bodyIn root) (.block b.1 b.2) := by
  match blocks with
  | [] => cases hb
  | block :: blocks =>
    obtain ⟨whole, hwhole, hdrop⟩ := hl
    obtain ⟨hbody, hdrop⟩ := bodyIn_cons hwhole hdrop
    rcases List.mem_append.1 hb with hb | hb
    · exact located_of_mem_outermost hbody hb
    · exact located_of_mem_outermostIn ⟨whole, hwhole, hdrop⟩ hb

end

/-- The outermost static blocks in a task. -/
def Task.outermost : Task → List (Place × Block)
  | .block place b => Render.outermost place b
  | .blocks place index bs => outermostIn place index bs
  | .loop place _ body _ => outermostIn place 0 body
  | .bindBlock place b => Render.outermost place b
  | .bindBlocks place index bs => outermostIn place index bs

/-! ## Binding -/

variable {settings : Settings}

/-- Renders blocks of a tree one after the other, for what they keep. -/
def bindEach (settings : Settings) (holder : Holder) : List (Place × Block) → Render Unit
  | [] => pure ()
  | (place, block) :: blocks => do
    let _ ← renderBlock (including settings) holder place block
    bindEach settings holder blocks

theorem bindEach_append (holder : Holder) (xs ys : List (Place × Block)) :
    bindEach settings holder (xs ++ ys) =
      (do bindEach settings holder xs; bindEach settings holder ys) := by
  induction xs with
  | nil => simp [bindEach]
  | cons x xs ih => simp [bindEach, ih]

mutual

theorem bindBlock_eq (place : Place) (block : Block) :
    bindBlock settings place block = bindEach settings .own (outermost place block) := by
  match block with
  | .static _ _ _ => rfl
  | .loop _ _ _ _ _ body => exact bindBlocks_eq place 0 body
  | .cond _ _ _ _ body => exact bindBlocks_eq place 0 body
  | .text _ _ => rfl
  | .inline _ _ => rfl
  | .inclusion _ _ _ => rfl

/-- The binding of a tree renders its outermost static blocks. -/
theorem bindBlocks_eq (place : Place) (index : Nat) (blocks : List Block) :
    bindBlocks settings place index blocks =
      bindEach settings .own (outermostIn place index blocks) := by
  match blocks with
  | [] => rfl
  | block :: blocks =>
    rw [outermostIn, bindEach_append, ← bindBlock_eq (index :: place) block,
      ← bindBlocks_eq place (index + 1) blocks]
    rfl

end

section

variable {holder : Holder} {s s' : State} {blocks : List (Place × Block)}

/-- How the rendering of blocks goes on after the first one. -/
theorem bindEach_cons_cases {place : Place} {block : Block} {r : Except Error Unit}
    (h : run (bindEach settings holder ((place, block) :: blocks)) s = (r, s')) :
    (∃ e, Point.run settings ⟨holder, .block place block, s⟩ = (.error e, s') ∧ r = .error e) ∨
    ∃ text s₁, Point.run settings ⟨holder, .block place block, s⟩ = (.ok text, s₁) ∧
      run (bindEach settings holder blocks) s₁ = (r, s') := by
  rcases hb : Point.run settings ⟨holder, .block place block, s⟩ with ⟨e | text, s₁⟩
  · cases (run_bind_error hb).symm.trans h
    exact .inl ⟨e, rfl, rfl⟩
  · exact .inr ⟨text, s₁, rfl, (run_bind_ok hb).symm.trans h⟩

theorem bindEach_grows {r : Except Error Unit}
    (h : run (bindEach settings holder blocks) s = (r, s')) : s.kept ≤ s'.kept := by
  induction blocks generalizing s with
  | nil =>
    cases h
    exact le_rfl
  | cons b blocks ih =>
    rcases bindEach_cons_cases h with ⟨e, hb, -⟩ | ⟨text, s₁, hb, h⟩
    · exact Point.grows hb trivial
    · exact le_trans (Point.grows hb trivial) (ih h)

/-- A static block that was rendered has a text. -/
theorem resolved_of_run_static {place : Place} {block : Block} (hb : IsStatic block)
    (hhas : s.kept.Has holder) {text : String}
    (h : Point.run settings ⟨holder, .block place block, s⟩ = (.ok text, s')) :
    ∃ known, s'.resolved holder place = some known := by
  obtain ⟨l, raw, body, rfl⟩ := hb
  cases hs : s.resolved holder place with
  | some known => exact ⟨known, State.resolved_of_le (Point.grows h trivial) hs⟩
  | none =>
    rcases hf : Point.run settings ⟨holder, .blocks place 0 body, s.detach⟩ with ⟨e | text', s₁⟩
    · cases (Point.run_static_error hs hf).symm.trans h
    · cases (Point.run_static hs hf).symm.trans h
      have hhas' : (s.reattach s₁).kept.Has holder := hhas.mono (Point.grows hf trivial)
      exact State.resolved_keep_self hhas' place text'

theorem resolved_of_bindEach (hblocks : ∀ b ∈ blocks, IsStatic b.2) (hhas : s.kept.Has holder)
    (h : run (bindEach settings holder blocks) s = (.ok (), s')) :
    ∀ b ∈ blocks, ∃ text, s'.resolved holder b.1 = some text := by
  induction blocks generalizing s with
  | nil => exact nofun
  | cons b blocks ih =>
    rcases bindEach_cons_cases h with ⟨e, -, hr⟩ | ⟨text, s₁, hb, h⟩
    · cases hr
    obtain ⟨hstatic, hblocks⟩ := List.forall_mem_cons.1 hblocks
    obtain ⟨known, hknown⟩ := resolved_of_run_static hstatic hhas hb
    exact List.forall_mem_cons.2 ⟨⟨known, State.resolved_of_le (bindEach_grows h) hknown⟩,
      ih hblocks (hhas.mono (Point.grows hb trivial)) h⟩

end

/-- The rendering of blocks one after the other begins one of them. -/
inductive Works (settings : Settings) (holder : Holder) :
    List (Place × Block) → State → Point → Prop
  | here {place block blocks s} :
      Works settings holder ((place, block) :: blocks) s ⟨holder, .block place block, s⟩
  | later {place block blocks s s' text p}
      (h : Point.run settings ⟨holder, .block place block, s⟩ = (.ok text, s'))
      (hp : Works settings holder blocks s' p) :
      Works settings holder ((place, block) :: blocks) s p

theorem Works.inv {holder : Holder} {blocks : List (Place × Block)} {s : State} {p : Point}
    (h : Works settings holder blocks s p) :
    p.holder = holder ∧ s.kept ≤ p.state.kept ∧ ∃ b ∈ blocks, p.task = .block b.1 b.2 := by
  induction h with
  | here => exact ⟨rfl, le_rfl, _, List.mem_cons_self, rfl⟩
  | later h _ ih =>
    obtain ⟨hh, hk, b, hb, ht⟩ := ih
    exact ⟨hh, le_trans (Point.grows h trivial) hk, b, List.mem_cons_of_mem _ hb, ht⟩

theorem Works.run_error {holder : Holder} {blocks : List (Place × Block)} {s s' : State} {p : Point}
    (h : Works settings holder blocks s p) {e : Error} (hp : p.run settings = (.error e, s')) :
    run (bindEach settings holder blocks) s = (.error e, s') := by
  induction h with
  | here => exact run_bind_error hp
  | later h _ ih => exact (run_bind_ok h).trans (ih hp)

/-! ## Trees in a state -/

/-- The tree of the holder is this template in the state. The blocks of the tree that a rendering
began with are not part of the state. -/
def State.Bears (s : State) (t : Template) : Holder → Prop
  | .own => s.cells = t.cells
  | .stored key => Fields.get? key s.store.templates = some t

section

variable {s s' : State} {t : Template} {holder : Holder}

theorem State.Bears.resolved_eq (h : s.Bears t holder) (place : Place) :
    s.resolved holder place = t.resolved place := by
  cases holder with
  | own => exact congrArg (Cells.get? place) h
  | stored key => exact congrArg (·.bind (·.resolved place)) h

theorem State.Bears.has (h : s.Bears t holder) : s.kept.Has holder := by
  rintro key rfl
  exact Option.isSome_iff_exists.2 ⟨t, h⟩

/-- The tree is there later on, with all texts of its static blocks. -/
theorem State.Bears.grows (h : s.Bears t holder) (hk : s.kept ≤ s'.kept) :
    ∃ t', s'.Bears t' holder ∧ t'.blocks = t.blocks ∧
      ∀ place text, t.resolved place = some text → t'.resolved place = some text := by
  cases holder with
  | own =>
    have h : s.cells = t.cells := h
    refine ⟨⟨t.blocks, s'.cells⟩, rfl, rfl, fun place text ht => hk.cells place text ?_⟩
    exact (congrArg (Cells.get? place) h).trans ht
  | stored key => exact hk.templates key t h

theorem State.Bears.evaluate {source : String} {r : Except Error Value} (h : s.Bears t holder)
    (hr : run (Render.evaluate source) s = (r, s')) : s'.Bears t holder := by
  obtain ⟨operand, cache, -, -, rfl⟩ := run_evaluate_inv hr
  exact h

theorem State.Bears.evaluateBindings {bindings : List (String × String)}
    {r : Except Error (Fields Value)} (h : s.Bears t holder)
    (hr : run (Render.evaluateBindings bindings) s = (r, s')) : s'.Bears t holder := by
  obtain ⟨cache, rfl⟩ := run_evaluateBindings_inv hr
  exact h

theorem State.Bears.load {name : String} {r : Except Error (String × Template)}
    (h : s.Bears t holder) (hr : run (Render.load settings name) s = (r, s')) :
    s'.Bears t holder := by
  rcases run_load_inv hr with ⟨-, -, rfl⟩ | ⟨loader, store, -, hl, rfl⟩
  · exact h
  · cases holder with
    | own => exact h
    | stored key => exact Store.get?_of_load hl h

theorem State.Bears.keep {other : Holder} (h : s.Bears t holder) (hne : other ≠ holder)
    (place : Place) (text : String) : (s.keep other place text).Bears t holder := by
  cases other with
  | own =>
    cases holder with
    | own => exact absurd rfl hne
    | stored key => exact h
  | stored key' =>
    cases holder with
    | own => exact h
    | stored key =>
      have h : Fields.get? key s.store.templates = some t := h
      show Fields.get? key (s.store.keep key' place text).templates = some t
      unfold Store.keep
      split
      · rw [Fields.get?_insert, if_neg]
        · exact h
        · rintro rfl
          exact hne rfl
      · exact h

end

/-! ## Bound trees -/

/-- The outermost static blocks of the template have texts. -/
def IsBound (t : Template) : Prop :=
  ∀ b ∈ outermostIn [] 0 t.blocks, ∃ text, t.resolved b.1 = some text

theorem isBound_of_bindEach {s s' : State} {holder : Holder} {t : Template}
    (ht : s.Bears t holder)
    (h : run (bindEach settings holder (outermostIn [] 0 t.blocks)) s = (.ok (), s')) :
    ∃ t', s'.Bears t' holder ∧ t'.blocks = t.blocks ∧ IsBound t' := by
  obtain ⟨t', ht', hblocks, -⟩ := ht.grows (bindEach_grows h)
  refine ⟨t', ht', hblocks, ?_⟩
  intro b hb
  rw [hblocks] at hb
  obtain ⟨text, htext⟩ := resolved_of_bindEach (fun b => isStatic_of_mem_outermostIn) ht.has h b hb
  exact ⟨text, (ht'.resolved_eq b.1).symm.trans htext⟩

/-- If the task belongs to the tree of the holder, the outermost static blocks in it have texts. -/
def Sealed (t : Template) (holder : Holder) (p : Point) : Prop :=
  p.holder = holder → ∀ b ∈ p.task.outermost, ∃ text, t.resolved b.1 = some text

theorem Sealed.of_subset {t : Template} {holder : Holder} {p q : Point} (h : Sealed t holder p)
    (hh : q.holder = p.holder) (hs : q.task.outermost ⊆ p.task.outermost) : Sealed t holder q :=
  fun hq b hb => h (hh.symm.trans hq) b (hs hb)

/-- A run that begins in a bound tree or in another one leaves the bound tree as it is, whatever its
result. -/
theorem Finishes.bears {p : Point} {r : Except Error String} {s' : State}
    (h : Finishes settings p r s') {t : Template} {holder : Holder} (ht : IsBound t)
    (hb : p.state.Bears t holder) (hp : Sealed t holder p) : s'.Bears t holder := by
  induction h with
  | text | staticResolved | inclusionCycle | inclusionDepth | nil | itemsNil | bindText | bindInline
  | bindInclusion | bindNil => exact hb
  | inline hv | loopError hv | loopType hv | condError hv | condType hv | condFalse hv =>
    exact hb.evaluate hv
  | loop hv _ _ ih | condTrue hv _ _ ih => exact ih (hb.evaluate hv) hp
  | @staticError holder' place l raw body e s s' hs _ ih =>
    refine ih hb ?_
    rintro rfl
    obtain ⟨text, htext⟩ := hp rfl (place, _) (List.mem_singleton_self _)
    cases hs.symm.trans ((hb.resolved_eq place).trans htext)
  | @static holder' place l raw body text s s' hs _ ih =>
    -- A static block without a text is one of another tree: in this one it would be outermost.
    have hne : holder' ≠ holder := by
      rintro rfl
      obtain ⟨text, htext⟩ := hp rfl (place, _) (List.mem_singleton_self _)
      cases hs.symm.trans ((hb.resolved_eq place).trans htext)
    have hbody : (s.reattach s').Bears t holder := ih hb fun hh => absurd hh hne
    exact hbody.keep hne place text
  | inclusionLoad _ _ hl => exact hb.load hl
  | inclusionBindings _ _ hl hv => exact (hb.load hl).evaluateBindings hv
  | @inclusion holder' place l resource attributes s s₁ s₂ s' key bindings r t' hc hd hl hv _ ih =>
    have hb₁ : s₁.Bears t holder := hb.load hl
    have hb₂ : s₂.Bears t holder := hb₁.evaluateBindings hv
    refine ih hb₂ ?_
    -- The included template may be the tree itself: it is the one that is in the store.
    rintro rfl
    cases hb₁.symm.trans (load_stored hl).2
    exact ht
  | firstError _ ih => exact ih hb (hp.of_subset rfl (List.subset_append_left _ _))
  | next _ _ ih iht =>
    have hfirst := ih hb (hp.of_subset rfl (List.subset_append_left _ _))
    exact iht hfirst (hp.of_subset rfl (List.subset_append_right _ _))
  | itemError _ ih => exact ih hb hp
  | items _ _ ih iht => exact iht (ih hb hp) hp
  | bindStatic _ ih | bindLoop _ ih | bindCond _ ih => exact ih hb hp
  | bindFirstError _ ih => exact ih hb (hp.of_subset rfl (List.subset_append_left _ _))
  | bindNext _ _ ih iht =>
    have hfirst := ih hb (hp.of_subset rfl (List.subset_append_left _ _))
    exact iht hfirst (hp.of_subset rfl (List.subset_append_right _ _))

/-- The same for the binding of a tree. -/
theorem bindEach_bears {holder holder' : Holder} {blocks : List (Place × Block)} {s s' : State}
    {r : Except Error Unit} (h : run (bindEach settings holder' blocks) s = (r, s')) {t : Template}
    (ht : IsBound t) (hb : s.Bears t holder) (hblocks : ∀ b ∈ blocks, IsStatic b.2)
    (hp : holder' = holder → ∀ b ∈ blocks, ∃ text, t.resolved b.1 = some text) :
    s'.Bears t holder := by
  induction blocks generalizing s with
  | nil =>
    cases h
    exact hb
  | cons b blocks ih =>
    obtain ⟨⟨l, raw, body, hstatic⟩, hblocks⟩ := List.forall_mem_cons.1 hblocks
    have hsealed : Sealed t holder ⟨holder', .block b.1 b.2, s⟩ := by
      intro hh b' hb'
      rw [hstatic] at hb'
      cases List.mem_singleton.1 hb'
      exact hp hh b List.mem_cons_self
    have hrest := fun hh => (List.forall_mem_cons.1 (hp hh)).2
    rcases bindEach_cons_cases h with ⟨e, hfirst, -⟩ | ⟨text, s₁, hfirst, h⟩
    · exact (Point.finishes hfirst trivial).bears ht hb hsealed
    · exact ih h ((Point.finishes hfirst trivial).bears ht hb hsealed) hblocks hrest

end Stencil.Render
