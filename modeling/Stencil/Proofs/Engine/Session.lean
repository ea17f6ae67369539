import Stencil.Proofs.Engine.History
import Stencil.Proofs.Render.Outermost
import Stencil.Proofs.Render.Underway

/-!
# Sessions

A session holds on to trees while they are bound and rendered in any order, templates are loaded and
dropped, and the settings change, with them the loader. An action may fail; the session goes on with
what it left behind. A tree is a session's own, or it is a stored template, of which the session
holds on to the one that was there when the store is cleared.

* A text of a static block is written once, and a bound tree does not change any more
  (`template?_after`). Every template that an engine has parsed is bound (`Engine.isBound_of_parse`).
* A static block that fails has no text after it (`Begins.unresolved`).
-/

namespace Stencil

open Markup (Block)
open Render (Point Passes State IsBound Kept Works bindEach outermostIn renderBlocks including)

/-- The second template has the blocks of the first one, and all texts of its static blocks. -/
structure Template.Extends (t t' : Template) : Prop where
  blocks : t'.blocks = t.blocks
  resolved : ∀ place text, t.resolved place = some text → t'.resolved place = some text

theorem Template.Extends.refl (t : Template) : t.Extends t := ⟨rfl, fun _ _ h => h⟩

theorem Template.Extends.trans {t₁ t₂ t₃ : Template} (h : t₁.Extends t₂) (h' : t₂.Extends t₃) :
    t₁.Extends t₃ :=
  ⟨h'.blocks.trans h.blocks, fun place text ht => h'.resolved place text (h.resolved place text ht)⟩

/-! ## Trees -/

/-- A tree that is held on to: one with texts of its own, or the stored template of this name. -/
inductive Tree where
  | own (t : Template)
  | shared (key : String)

namespace Tree

/-- Where the texts of the static blocks of the tree are kept. -/
def holder : Tree → Holder
  | .own _ => .own
  | .shared key => .stored key

/-- The template that the tree is. -/
def template? (store : Store) : Tree → Option Template
  | .own t => some t
  | .shared key => Fields.get? key store.templates

/-- The texts that a rendering of the tree begins with, apart from those in the store. -/
def cells : Tree → Cells
  | .own t => t.cells
  | .shared _ => []

/-- The tree after a rendering of it that left these texts. -/
def update (cells : Cells) : Tree → Tree
  | .own t => .own { t with cells := cells }
  | .shared key => .shared key

/-- The tree without the store: it is the session's own from now on. -/
def detach (store : Store) (tree : Tree) : Tree :=
  match tree.template? store with
  | some t => .own t
  | none => tree

end Tree

/-! ## Actions -/

/-- What the actions of a session work on. -/
structure Session where
  engine : Engine
  /-- The chain of the renderer that is in use. -/
  chain : List String := []
  trees : List Tree := []

namespace Session

/-- What may be done in a session. Trees are given by their indices. -/
inductive Action where
  /-- Goes on with other settings, and so maybe with another loader. -/
  | configure (settings : Settings)
  /-- Goes on with another renderer. -/
  | renew
  /-- Adds the tree of a text. -/
  | read (source : String)
  /-- Renders the static blocks of a tree. -/
  | bind (i : Nat)
  | render (i : Nat) (context : Context)
  /-- Adds a stored template as a tree, which is loaded if need be. -/
  | load (name : String)
  /-- Drops the stored templates. -/
  | clear
  | evaluate (source : String) (context : Context)

/-- A tree of the session, and the template that it is at the moment. -/
def tree? (x : Session) (i : Nat) : Option (Tree × Template) :=
  x.trees[i]?.bind fun tree => (tree.template? x.engine.store).map (tree, ·)

/-- The template that a tree of the session is at the moment. -/
def template? (x : Session) (i : Nat) : Option Template := (x.tree? i).map (·.2)

/-- The state in which a rendering of a tree begins. -/
def start (x : Session) (tree : Tree) (context : Context) : State where
  context := context
  chain := x.chain
  cells := tree.cells
  store := x.engine.store
  expressions := x.engine.expressions

/-- The session after a rendering of the tree with an index, which left the state `s`. -/
def leave (x : Session) (i : Nat) (tree : Tree) (s : State) : Session where
  engine := x.engine.keeping s
  chain := s.chain
  trees := x.trees.set i (tree.update s.cells)

/-- What an action comes to, and the session after it. There is no result if there is no such tree.
-/
def run (x : Session) : Action → Option (Except Error String) × Session
  | .configure settings => (some (.ok ""), { x with engine := { x.engine with settings } })
  | .renew => (some (.ok ""), { x with chain := [] })
  | .read source =>
    match x.engine.read source with
    | .ok t => (some (.ok ""), { x with trees := x.trees ++ [.own t] })
    | .error e => (some (.error e), x)
  | .bind i =>
    match x.tree? i with
    | some (tree, t) =>
      let (result, s) := Render.run
        (bindEach x.engine.settings tree.holder (outermostIn [] 0 t.blocks))
        (x.start tree Context.empty)
      (some (result.map fun _ => ""), x.leave i tree s)
    | none => (none, x)
  | .render i context =>
    match x.tree? i with
    | some (tree, t) =>
      let (result, s) := Render.run
        (renderBlocks (including x.engine.settings) tree.holder [] 0 t.blocks)
        (x.start tree context)
      (some result, x.leave i tree s)
    | none => (none, x)
  | .load name =>
    match x.engine.load name with
    | (.ok _, e) => (some (.ok ""),
        { x with
          engine := e
          trees := x.trees ++ [.shared (Render.canonicalName x.engine.settings name)] })
    | (.error err, e) => (some (.error err), { x with engine := e })
  | .clear => (some (.ok ""),
      { x with engine := x.engine.clear, trees := x.trees.map (·.detach x.engine.store) })
  | .evaluate source context =>
    let (result, e) := x.engine.evaluate source context
    (some (result.map (·.value.display)), { x with engine := e })

/-- The session after actions, in order, whatever their results. -/
def after (x : Session) (actions : List Action) : Session :=
  actions.foldl (fun x a => (x.run a).2) x

/-- The text of a static block that a run of the tree with an index comes to. -/
def resolved (x : Session) (i : Nat) : Holder → Place → Option String
  | .own, place => (x.template? i).bind (·.resolved place)
  | .stored key, place => x.engine.store.resolved key place

/-- The run of an action on the tree with an index begins a point. -/
inductive Begins (x : Session) : Action → Nat → Point → Prop
  | render {i context tree t} (h : x.tree? i = some (tree, t)) :
      Begins x (.render i context) i ⟨tree.holder, .blocks [] 0 t.blocks, x.start tree context⟩
  | bind {i tree t p} (h : x.tree? i = some (tree, t))
      (hp : Works x.engine.settings tree.holder (outermostIn [] 0 t.blocks)
        (x.start tree Context.empty) p) :
      Begins x (.bind i) i p

section

variable {x x' : Session} {i j : Nat} {tree tree' : Tree} {t t' : Template} {s : State}

theorem tree?_eq_some_iff :
    x.tree? i = some (tree, t) ↔
      x.trees[i]? = some tree ∧ tree.template? x.engine.store = some t := by
  simp [tree?, Option.bind_eq_some_iff, Option.map_eq_some_iff]

theorem template?_eq_some_iff : x.template? i = some t ↔ ∃ tree, x.tree? i = some (tree, t) := by
  simp [template?]

/-! ## Engines

What a session does with its own trees is what its engine does with templates.
-/

theorem start_own (x : Session) (t : Template) (context : Context) (hchain : x.chain = []) :
    x.start (.own t) context = x.engine.start t context := by
  rw [start, hchain]
  rfl

theorem run_bind_own (hi : x.trees[i]? = some (.own t)) (hchain : x.chain = []) :
    x.run (.bind i) = (some ((x.engine.bind t).1.map fun _ => ""),
      ⟨(x.engine.bind t).2.1, [], x.trees.set i (.own (x.engine.bind t).2.2)⟩) := by
  have htree : x.tree? i = some (.own t, t) := tree?_eq_some_iff.2 ⟨hi, rfl⟩
  rcases hr : Render.run (Render.bindBlocks x.engine.settings [] 0 t.blocks)
    (x.engine.start t Context.empty) with ⟨r, s⟩
  have hframes := Render.congruence_frames .own (Render.frames_including x.engine.settings)
  have hs : s.chain = [] := (hframes.bindBlocks t.blocks [] 0).chain_eq hr
  rw [Engine.bind_of_run hr]
  rw [Render.bindBlocks_eq] at hr
  simp only [run, htree, Tree.holder, start_own x t _ hchain, hr, leave, hs, Tree.update]

theorem run_render_own (hi : x.trees[i]? = some (.own t)) (hchain : x.chain = [])
    (context : Context) :
    x.run (.render i context) = (some (x.engine.render t context).1,
      ⟨(x.engine.render t context).2.1, [],
        x.trees.set i (.own (x.engine.render t context).2.2.1)⟩) := by
  have htree : x.tree? i = some (.own t, t) := tree?_eq_some_iff.2 ⟨hi, rfl⟩
  rcases hr : Render.run (Render.tree x.engine.settings t.blocks) (x.engine.start t context) with
    ⟨r, s⟩
  have hframes := Render.frames_renderBlocks x.engine.settings .own [] 0 t.blocks
  have hs : s.chain = [] := hframes.chain_eq hr
  have hrender : x.engine.render t context =
      (r, x.engine.keeping s, { t with cells := s.cells }, s.context) :=
    congrArg (fun o : Except Error String × State =>
      (o.1, x.engine.keeping o.2, { t with cells := o.2.cells }, o.2.context)) hr
  rw [hrender]
  rw [Render.tree] at hr
  simp only [run, htree, Tree.holder, start_own x t _ hchain, hr, leave, hs, Tree.update]

/-! ## Renderings of a tree -/

theorem bears_start (h : x.tree? i = some (tree, t)) (context : Context) :
    (x.start tree context).Bears t tree.holder := by
  obtain ⟨-, ht⟩ := tree?_eq_some_iff.1 h
  cases tree with
  | own t' =>
    cases ht
    rfl
  | shared key => exact ht

/-- A tree is found where a rendering of it begins, and a stored template where any rendering
does. -/
theorem bears_start_of_own (hi : x.tree? i = some (tree, t')) (hj : x.tree? j = some (tree', t))
    (hown : tree'.holder = .own → j = i) (context : Context) :
    (x.start tree context).Bears t tree'.holder := by
  cases tree' with
  | own t₀ =>
    obtain rfl := hown rfl
    cases hi.symm.trans hj
    exact bears_start hi context
  | shared key => exact (tree?_eq_some_iff.1 hj).2

/-- Trees with the same holder are the same. -/
theorem eq_of_holder_eq (hi : x.tree? i = some (tree, t')) (hj : x.tree? j = some (tree', t))
    (hown : tree'.holder = .own → j = i) (hh : tree.holder = tree'.holder) : t' = t := by
  cases tree' with
  | own t₀ =>
    obtain rfl := hown rfl
    cases hi.symm.trans hj
    rfl
  | shared key =>
    have ht := bears_start hi Context.empty
    rw [hh] at ht
    exact Option.some.inj (ht.symm.trans (tree?_eq_some_iff.1 hj).2)

/-- After a rendering, a tree is what the state has for it. -/
theorem template?_leave (hi : x.trees[i]? = some tree) (hj : x.tree? j = some (tree', t))
    (hown : tree'.holder = .own → j = i) (hb : s.Bears t' tree'.holder)
    (hblocks : t'.blocks = t.blocks) : (x.leave i tree s).template? j = some t' := by
  obtain ⟨htree, ht⟩ := tree?_eq_some_iff.1 hj
  cases tree' with
  | own t₀ =>
    obtain rfl := hown rfl
    cases hi.symm.trans htree
    cases ht
    refine template?_eq_some_iff.2 ⟨.own { t with cells := s.cells }, tree?_eq_some_iff.2 ⟨?_, ?_⟩⟩
    · obtain ⟨hlt, -⟩ := List.getElem?_eq_some_iff.1 hi
      exact List.getElem?_set_self hlt
    · have hcells : s.cells = t'.cells := hb
      show some { t with cells := s.cells } = some t'
      rw [hcells, ← hblocks]
  | shared key =>
    refine template?_eq_some_iff.2 ⟨.shared key, tree?_eq_some_iff.2 ⟨?_, hb⟩⟩
    by_cases hji : j = i
    · subst hji
      cases hi.symm.trans htree
      obtain ⟨hlt, -⟩ := List.getElem?_eq_some_iff.1 hi
      exact List.getElem?_set_self hlt
    · exact (List.getElem?_set_ne (Ne.symm hji)).trans htree

/-- Another tree of the session's own stays as it is. -/
theorem template?_leave_own (hij : j ≠ i) (hj : x.tree? j = some (tree', t))
    (hown : tree'.holder = .own) : (x.leave i tree s).template? j = some t := by
  obtain ⟨htree, ht⟩ := tree?_eq_some_iff.1 hj
  cases tree' with
  | own t₀ =>
    refine template?_eq_some_iff.2 ⟨.own t₀, tree?_eq_some_iff.2 ⟨?_, ht⟩⟩
    exact (List.getElem?_set_ne (Ne.symm hij)).trans htree
  | shared key => cases hown

/-- A rendering that loses nothing and leaves bound trees as they are does so for the trees of the
session. -/
theorem extends_leave (hi : x.tree? i = some (tree, t')) {context : Context}
    (hgrows : (x.start tree context).kept ≤ s.kept)
    (hbears : ∀ t holder, IsBound t → (x.start tree context).Bears t holder →
      (tree.holder = holder → t' = t) → s.Bears t holder)
    (hj : x.template? j = some t) :
    ∃ t', (x.leave i tree s).template? j = some t' ∧ t.Extends t' ∧ (IsBound t → t' = t) := by
  obtain ⟨tree', hj⟩ := template?_eq_some_iff.1 hj
  obtain ⟨htree, -⟩ := tree?_eq_some_iff.1 hi
  by_cases hother : tree'.holder = .own ∧ j ≠ i
  · exact ⟨t, template?_leave_own hother.2 hj hother.1, .refl t, fun _ => rfl⟩
  have hown : tree'.holder = .own → j = i := fun hh => by_contra fun hne => hother ⟨hh, hne⟩
  have hstart := bears_start_of_own hi hj hown context
  obtain ⟨t₁, hb, hblocks, hresolved⟩ := hstart.grows hgrows
  have hleave := template?_leave htree hj hown hb hblocks
  refine ⟨t₁, hleave, ⟨hblocks, hresolved⟩, ?_⟩
  intro ht
  have hkeeps := hbears t _ ht hstart (eq_of_holder_eq hi hj hown)
  exact Option.some.inj (hleave.symm.trans (template?_leave htree hj hown hkeeps rfl))

/-! ## Texts are written once -/

/-- Actions that only add trees and templates leave a tree as it is. -/
theorem template?_of_isPrefix (htrees : x.trees <+: x'.trees)
    (hstore : ∀ key t, Fields.get? key x.engine.store.templates = some t →
      Fields.get? key x'.engine.store.templates = some t)
    (h : x.template? j = some t) : x'.template? j = some t := by
  obtain ⟨tree, h⟩ := template?_eq_some_iff.1 h
  obtain ⟨htree, ht⟩ := tree?_eq_some_iff.1 h
  obtain ⟨more, hmore⟩ := htrees
  refine template?_eq_some_iff.2 ⟨tree, tree?_eq_some_iff.2 ⟨?_, ?_⟩⟩
  · obtain ⟨hlt, -⟩ := List.getElem?_eq_some_iff.1 htree
    rw [← hmore, List.getElem?_append_left hlt, htree]
  · cases tree with
    | own t' => exact ht
    | shared key => exact hstore key t ht

theorem get?_of_engine_load {e e' : Engine} {name : String} {r : Except Error Template}
    (h : e.load name = (r, e')) {key : String}
    (ht : Fields.get? key e.store.templates = some t) :
    Fields.get? key e'.store.templates = some t := by
  unfold Engine.load at h
  split at h
  · cases h
    exact ht
  · rename_i loader _
    rcases hl : e.store.load loader e.settings.config.parseOptions name with ⟨r', store⟩
    rw [hl] at h
    cases h
    exact Store.get?_of_load hl ht

theorem template?_read (h : x.template? j = some t) (source : String) :
    (x.run (.read source)).2.template? j = some t := by
  simp only [run]
  split
  · exact template?_of_isPrefix (List.prefix_append _ _) (fun _ _ => id) h
  · exact h

theorem template?_load (h : x.template? j = some t) (name : String) :
    (x.run (.load name)).2.template? j = some t := by
  simp only [run]
  split
  · rename_i e he
    exact template?_of_isPrefix (List.prefix_append _ _) (fun _ _ => get?_of_engine_load he) h
  · rename_i err e he
    exact template?_of_isPrefix (x := x) List.prefix_rfl (fun _ _ => get?_of_engine_load he) h

/-- The session still has a stored template when the store has dropped it. -/
theorem template?_clear (h : x.template? j = some t) :
    (x.run .clear).2.template? j = some t := by
  obtain ⟨tree, h⟩ := template?_eq_some_iff.1 h
  obtain ⟨htree, ht⟩ := tree?_eq_some_iff.1 h
  refine template?_eq_some_iff.2 ⟨.own t, tree?_eq_some_iff.2 ⟨?_, rfl⟩⟩
  show (x.trees.map (·.detach x.engine.store))[j]? = _
  rw [List.getElem?_map, htree]
  show some (tree.detach x.engine.store) = _
  rw [Tree.detach, ht]

theorem extends_bind (h : x.template? j = some t) (i : Nat) :
    ∃ t', (x.run (.bind i)).2.template? j = some t' ∧ t.Extends t' ∧ (IsBound t → t' = t) := by
  simp only [run]
  split
  · rename_i tree t' hi
    rcases hr : Render.run (bindEach x.engine.settings tree.holder (outermostIn [] 0 t'.blocks))
      (x.start tree Context.empty) with ⟨r, s⟩
    refine extends_leave hi (Render.bindEach_grows hr) (fun t holder ht hb hsame => ?_) h
    refine Render.bindEach_bears hr ht hb (fun _ => Render.isStatic_of_mem_outermostIn) ?_
    exact fun hh => hsame hh ▸ ht
  · exact ⟨t, h, .refl t, fun _ => rfl⟩

theorem extends_render (h : x.template? j = some t) (i : Nat) (context : Context) :
    ∃ t', (x.run (.render i context)).2.template? j = some t' ∧ t.Extends t' ∧
      (IsBound t → t' = t) := by
  simp only [run]
  split
  · rename_i tree t' hi
    rcases hr : Render.run (renderBlocks (including x.engine.settings) tree.holder [] 0 t'.blocks)
      (x.start tree context) with ⟨r, s⟩
    have hf : Render.Finishes x.engine.settings
        ⟨tree.holder, .blocks [] 0 t'.blocks, x.start tree context⟩ r s :=
      Point.finishes hr trivial
    refine extends_leave hi hf.grows (fun t holder ht hb hsame => hf.bears ht hb ?_) h
    exact fun hh => hsame hh ▸ ht
  · exact ⟨t, h, .refl t, fun _ => rfl⟩

/-- An action leaves every tree with its blocks and its texts, and leaves it as it is if it is
bound. -/
theorem template?_run (h : x.template? j = some t) (a : Action) :
    ∃ t', (x.run a).2.template? j = some t' ∧ t.Extends t' ∧ (IsBound t → t' = t) := by
  have same : ∀ {x' : Session}, x'.template? j = some t →
      ∃ t', x'.template? j = some t' ∧ t.Extends t' ∧ (IsBound t → t' = t) :=
    fun hx => ⟨t, hx, .refl t, fun _ => rfl⟩
  cases a with
  | configure settings => exact same h
  | renew => exact same h
  | read source => exact same (template?_read h source)
  | bind i => exact extends_bind h i
  | render i context => exact extends_render h i context
  | load name => exact same (template?_load h name)
  | clear => exact same (template?_clear h)
  | evaluate source context => exact same h

/-- The same for any number of actions. -/
theorem template?_after (h : x.template? j = some t) (actions : List Action) :
    ∃ t', (x.after actions).template? j = some t' ∧ t.Extends t' ∧ (IsBound t → t' = t) := by
  induction actions generalizing x t with
  | nil => exact ⟨t, h, .refl t, fun _ => rfl⟩
  | cons a actions ih =>
    obtain ⟨t₁, h₁, hext₁, hbound₁⟩ := template?_run h a
    obtain ⟨t₂, h₂, hext₂, hbound₂⟩ := ih h₁
    refine ⟨t₂, h₂, hext₁.trans hext₂, fun ht => ?_⟩
    have heq := hbound₁ ht
    exact (hbound₂ (heq.symm ▸ ht)).trans heq

/-- A stored template has its texts until the store is cleared. -/
theorem get?_run {a : Action} (ha : a ≠ .clear) {key : String}
    (h : Fields.get? key x.engine.store.templates = some t) :
    ∃ t', Fields.get? key (x.run a).2.engine.store.templates = some t' ∧ t.Extends t' := by
  have same : ∃ t', Fields.get? key x.engine.store.templates = some t' ∧ t.Extends t' :=
    ⟨t, h, .refl t⟩
  cases a with
  | configure settings => exact same
  | renew => exact same
  | read source =>
    simp only [run]
    split <;> exact same
  | bind i =>
    simp only [run]
    split
    · rename_i tree t' hi
      rcases hr : Render.run (bindEach x.engine.settings tree.holder (outermostIn [] 0 t'.blocks))
        (x.start tree Context.empty) with ⟨r, s⟩
      obtain ⟨t₁, h₁, hblocks, hresolved⟩ := (Render.bindEach_grows hr).templates key t h
      exact ⟨t₁, h₁, hblocks, hresolved⟩
    · exact same
  | render i context =>
    simp only [run]
    split
    · rename_i tree t' hi
      rcases hr : Point.run x.engine.settings
        ⟨tree.holder, .blocks [] 0 t'.blocks, x.start tree context⟩ with ⟨r, s⟩
      obtain ⟨t₁, h₁, hblocks, hresolved⟩ := (Point.grows hr trivial).templates key t h
      refine ⟨t₁, ?_, hblocks, hresolved⟩
      exact (congrArg (fun o => Fields.get? key o.2.store.templates) hr).trans h₁
    · exact same
  | load name =>
    simp only [run]
    split
    · rename_i e he
      exact ⟨t, get?_of_engine_load he h, .refl t⟩
    · rename_i err e he
      exact ⟨t, get?_of_engine_load he h, .refl t⟩
  | clear => exact absurd rfl ha
  | evaluate source context => exact same

theorem get?_after {actions : List Action} (ha : .clear ∉ actions) {key : String}
    (h : Fields.get? key x.engine.store.templates = some t) :
    ∃ t', Fields.get? key (x.after actions).engine.store.templates = some t' ∧ t.Extends t' := by
  induction actions generalizing x t with
  | nil => exact ⟨t, h, .refl t⟩
  | cons a actions ih =>
    obtain ⟨hne, hmem⟩ := not_or.1 (mt List.mem_cons.2 ha)
    obtain ⟨t₁, h₁, hext₁⟩ := get?_run (Ne.symm hne) h
    obtain ⟨t₂, h₂, hext₂⟩ := ih hmem h₁
    exact ⟨t₂, h₂, hext₁.trans hext₂⟩

/-! ## Static blocks that fail -/

variable {a : Action} {p q : Point} {e : Error} {s' : State}

theorem Begins.placed (h : x.Begins a i p) : p.Placed := by
  have hroot : ∀ {tree t}, x.tree? i = some (tree, t) → ∀ context,
      Point.Placed ⟨tree.holder, .blocks [] 0 t.blocks, x.start tree context⟩ := by
    intro tree t hi context key hh
    have hh : tree.holder = .stored key := hh
    have ht := bears_start hi context
    rw [hh] at ht
    exact ⟨t, ht, t.blocks, rfl, rfl⟩
  cases h with
  | render hi => exact hroot hi _
  | @bind _ tree t _ hi hp =>
    obtain ⟨hh, hk, b, hb, htask⟩ := hp.inv
    refine (hroot hi Context.empty).mono hk hh fun root hl => ?_
    rw [htask]
    exact Render.located_of_mem_outermostIn hl hb

/-- An error where the run of an action begins is the result of the action. -/
theorem Begins.run_error (h : x.Begins a i p) (he : p.run x.engine.settings = (.error e, s')) :
    ∃ tree t, x.tree? i = some (tree, t) ∧ p.holder = tree.holder ∧
      x.run a = (some (.error e), x.leave i tree s') := by
  cases h with
  | @render _ context tree t hi =>
    have hr : Render.run (renderBlocks (including x.engine.settings) tree.holder [] 0 t.blocks)
      (x.start tree context) = (.error e, s') := he
    refine ⟨tree, t, hi, rfl, ?_⟩
    simp only [run, hi, hr]
  | @bind _ tree t _ hi hp =>
    refine ⟨tree, t, hi, hp.inv.1, ?_⟩
    simp only [run, hi, hp.run_error he]
    rfl

theorem resolved_leave (hi : x.tree? i = some (tree, t)) {holder : Holder}
    (hh : holder = .own → tree.holder = .own) (s : State) (place : Place) :
    (x.leave i tree s).resolved i holder place = s.resolved holder place := by
  cases holder with
  | own =>
    have hb : s.Bears ⟨t.blocks, s.cells⟩ tree.holder := by
      rw [hh rfl]
      rfl
    have hleave := template?_leave (tree?_eq_some_iff.1 hi).1 hi (fun _ => rfl) hb rfl
    show ((x.leave i tree s).template? i).bind _ = _
    rw [hleave]
    rfl
  | stored key => rfl

/-- A static block that fails has no text, neither then nor when the action is over, and its error
is the result of the action. -/
theorem Begins.unresolved (h : x.Begins a i p) (hq : Passes x.engine.settings p q) {place : Place}
    {l : Markup.Location} {raw : String} {body : List Block}
    (htask : q.task = .block place (.static l raw body))
    (he : (q.run x.engine.settings).1 = .error e) :
    (q.run x.engine.settings).2.resolved q.holder place = none ∧
      (x.run a).1 = some (.error e) ∧ (x.run a).2.resolved i q.holder place = none := by
  obtain ⟨holder, task, s⟩ := q
  have htask : task = _ := htask
  subst htask
  rcases hr : Point.run x.engine.settings ⟨holder, .block place (.static l raw body), s⟩ with
    ⟨r, s₁⟩
  rw [hr] at he
  have he : r = .error e := he
  subst he
  have hnone := hq.unresolved h.placed hr
  obtain ⟨s₂, hroot, hkept⟩ := hq.run_error hr
  obtain ⟨tree, t, hi, hh, hrun⟩ := h.run_error hroot
  obtain ⟨opened, hway⟩ := hq.way
  have hown : holder = .own → tree.holder = .own := by
    rintro rfl
    rcases hway.inside_or with hinside | ⟨key, hkey⟩
    · exact hh.symm.trans hinside.holder.symm
    · cases hkey
  refine ⟨hnone, ?_, ?_⟩
  · rw [hrun]
  · rw [hrun]
    refine (resolved_leave hi hown s₂ place).trans ?_
    exact State.resolved_eq_none_of_le hkept.le hnone

end

/-! ## Bound trees -/

theorem isBound_of_bind {x : Session} {i : Nat} {text : String}
    (h : (x.run (.bind i)).1 = some (.ok text)) :
    ∃ t, (x.run (.bind i)).2.template? i = some t ∧ IsBound t := by
  simp only [run] at h ⊢
  split at h
  · rename_i tree t hi
    rcases hr : Render.run (bindEach x.engine.settings tree.holder (outermostIn [] 0 t.blocks))
      (x.start tree Context.empty) with ⟨_ | ⟨⟨⟩⟩, s⟩
    · rw [hr] at h
      cases h
    · obtain ⟨t', hb, hblocks, ht'⟩ := Render.isBound_of_bindEach (bears_start hi _) hr
      exact ⟨t', template?_leave (tree?_eq_some_iff.1 hi).1 hi (fun _ => rfl) hb hblocks, ht'⟩
  · cases h

end Session

/-- A template that an engine has parsed is bound. -/
theorem Engine.isBound_of_parse {e e' : Engine} {source : String} {t : Template}
    (h : e.parse source = (.ok t, e')) : IsBound t := by
  unfold Engine.parse at h
  split at h
  · cases h
  · rename_i t₀ _
    split at h
    · rename_i e₁ t₁ hbind
      cases h
      rcases hr : Render.run (Render.bindBlocks e.settings [] 0 t₀.blocks)
        (e.start t₀ Context.empty) with ⟨r, s⟩
      cases hbind.symm.trans (Engine.bind_of_run hr)
      rw [Render.bindBlocks_eq] at hr
      have hstart : (e.start t₀ Context.empty).Bears t₀ .own := rfl
      obtain ⟨t', hb, hblocks, ht'⟩ := Render.isBound_of_bindEach hstart hr
      have hcells : s.cells = t'.cells := hb
      rwa [hcells, ← hblocks]
    · cases h

namespace Session

/-! ## Sessions keep to what was written -/

/-- Whatever is done in a session, a text of a static block stays: in the trees of the session, in
the store until it is cleared, and while an action is under way. A static block that fails has no
text after it. A tree of which the static blocks were rendered without an error does not change any
more, and neither does a template that an engine has parsed. -/
theorem texts_written_once (x : Session) :
    (∀ actions i t, x.template? i = some t →
      ∃ t', (x.after actions).template? i = some t' ∧ t.Extends t') ∧
    (∀ actions key t, .clear ∉ actions → Fields.get? key x.engine.store.templates = some t →
      ∃ t', Fields.get? key (x.after actions).engine.store.templates = some t' ∧ t.Extends t') ∧
    (∀ a i p q holder place text, x.Begins a i p → Passes x.engine.settings p q →
      p.state.resolved holder place = some text → q.state.resolved holder place = some text) ∧
    (∀ a i p q place l raw body e, x.Begins a i p → Passes x.engine.settings p q →
      q.task = .block place (.static l raw body) → (q.run x.engine.settings).1 = .error e →
      (q.run x.engine.settings).2.resolved q.holder place = none ∧
        (x.run a).1 = some (.error e) ∧ (x.run a).2.resolved i q.holder place = none) ∧
    (∀ i text, (x.run (.bind i)).1 = some (.ok text) →
      ∃ t, (x.run (.bind i)).2.template? i = some t ∧
        ∀ actions, ((x.run (.bind i)).2.after actions).template? i = some t) ∧
    (∀ (e : Engine) source t e', e.parse source = (.ok t, e') →
      ∀ i actions, x.template? i = some t → (x.after actions).template? i = some t) := by
  have bound : ∀ (x : Session) i t, x.template? i = some t → IsBound t →
      ∀ actions, (x.after actions).template? i = some t := by
    intro x i t h ht actions
    obtain ⟨t', h', -, hsame⟩ := template?_after h actions
    exact hsame ht ▸ h'
  refine ⟨?_, fun actions key t ha h => get?_after ha h, ?_, ?_, ?_, ?_⟩
  · intro actions i t h
    obtain ⟨t', h', hext, -⟩ := template?_after h actions
    exact ⟨t', h', hext⟩
  · intro a i p q holder place text _ hq htext
    obtain ⟨opened, hway⟩ := hq.way
    exact State.resolved_of_le hway.grows htext
  · exact fun a i p q place l raw body e hp hq htask he => hp.unresolved hq htask he
  · intro i text h
    obtain ⟨t, ht, hbound⟩ := isBound_of_bind h
    exact ⟨t, ht, bound _ i t ht hbound⟩
  · exact fun e source t e' h i actions hx => bound x i t hx (Engine.isBound_of_parse h) actions

/-- A static block around another one that is not come to, and a variable. -/
def veiled : Template where
  blocks := [.static ⟨1, 1, 0⟩ "" [.cond ⟨1, 9, 8⟩ "false" [] ""
    [.static ⟨1, 29, 28⟩ "" [.inline ⟨1, 37, 36⟩ "x"]]], .inline ⟨1, 63, 62⟩ "y"]

/-- A session with this tree. -/
def veiledSession : Session where
  engine := {}
  trees := [.own veiled]

/-- The inner static block of the bound tree never has a text, whatever is done later on, for
instance a rendering that fails. -/
theorem veiled_written_once :
    (veiledSession.run (.bind 0)).1 = some (.ok "") ∧
    ((veiledSession.run (.bind 0)).2.run (.render 0 Context.empty)).1 =
      some (.error (.unresolved "y" "y")) ∧
    ∃ t, t.resolved [0] = some "" ∧ t.resolved [0, 0, 0] = none ∧
      ∀ actions, ((veiledSession.run (.bind 0)).2.after actions).template? 0 = some t := by
  have hbind : (veiledSession.run (.bind 0)).1 = some (.ok "") := by with_unfolding_all rfl
  have hrender : ((veiledSession.run (.bind 0)).2.run (.render 0 Context.empty)).1 =
      some (.error (.unresolved "y" "y")) := by with_unfolding_all rfl
  obtain ⟨-, -, -, -, hbound, -⟩ := texts_written_once veiledSession
  obtain ⟨t, ht, hafter⟩ := hbound 0 "" hbind
  have htexts : ((veiledSession.run (.bind 0)).2.template? 0).map
      (fun t => (t.resolved [0], t.resolved [0, 0, 0])) = some (some "", none) := by decide +kernel
  rw [ht] at htexts
  have htexts : (t.resolved [0], t.resolved [0, 0, 0]) = (some "", none) := Option.some.inj htexts
  exact ⟨hbind, hrender, t, congrArg Prod.fst htexts, congrArg Prod.snd htexts, hafter⟩

end Session

end Stencil
