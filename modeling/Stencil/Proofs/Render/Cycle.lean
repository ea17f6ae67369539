import Mathlib.Data.List.Chain
import Mathlib.Data.List.Nodup
import Stencil.Proofs.Markup.Locality
import Stencil.Proofs.Render.Refusal

/-!
# Reported cycles

An error that reports a cycle lists the names of inclusions, from the tree that the rendering began
with to the name that would come round. `RealCycle` says that the templates do include each other
so: each name is that of an inclusion in the template before it.

The chain is only a list of names. That it belongs to templates is an invariant of the points of a
rendering (`Passes.stands`): the names of the chain were included one in the other, and the task of
the point is a part of the template that was included last. An error of a loader says why a text
cannot be loaded (`Loader.Answers`), so that these cycles do not come from loaders.
-/

namespace Stencil.Render

open Markup (Block Attributes Nested nested_cons not_nested_nil)

variable {settings : Settings}

/-! ## Inclusions in a tree -/

/-- There is an inclusion of the template in the blocks or in their bodies. -/
def Includes (settings : Settings) (blocks : List Block) (name : String) : Prop :=
  ∃ depth l resource attributes, Nested blocks depth (.inclusion l resource attributes) ∧
    canonicalName settings resource = name

theorem Includes.body {block : Block} {name : String} (h : Includes settings block.body name) :
    Includes settings [block] name := by
  obtain ⟨depth, l, resource, attributes, hn, hname⟩ := h
  exact ⟨depth + 1, l, resource, attributes, .inside List.mem_cons_self hn, hname⟩

theorem Includes.mono {blocks others : List Block} {name : String}
    (h : Includes settings blocks name) (hs : blocks ⊆ others) : Includes settings others name := by
  obtain ⟨depth, l, resource, attributes, hn, hname⟩ := h
  cases hn with
  | here hm => exact ⟨0, l, resource, attributes, .here (hs hm), hname⟩
  | inside hm hn => exact ⟨_, l, resource, attributes, .inside (hs hm) hn, hname⟩

theorem includes_inclusion (l : Markup.Location) (resource : String) (attributes : Attributes) :
    Includes settings [.inclusion l resource attributes] (canonicalName settings resource) :=
  ⟨0, l, resource, attributes, .here List.mem_cons_self, rfl⟩

/-- The blocks that a task is about. -/
def Task.parts : Task → List Block
  | .block _ b => [b]
  | .blocks _ _ bs => bs
  | .loop _ _ body _ => body
  | .bindBlock _ b => [b]
  | .bindBlocks _ _ bs => bs

/-! ## Loaded templates -/

/-- The template of this name is stored, and these are its blocks: loading it gives them, and
changes nothing. -/
def Loaded (settings : Settings) (s : State) (name : String) (blocks : List Block) : Prop :=
  ∃ key t, run (load settings name) s = (.ok (key, t), s) ∧ t.blocks = blocks

theorem loaded_of_load {s s' u : State} {name key : String} {t : Template}
    (h : run (load settings name) s = (.ok (key, t), s')) (hk : s'.kept ≤ u.kept) :
    Loaded settings u name t.blocks := by
  obtain ⟨t', ht', hb⟩ := load_again h hk
  exact ⟨key, t', ht', hb⟩

/-- A template that is stored has the same blocks from then on. -/
theorem Loaded.mono {s u : State} {name : String} {blocks : List Block}
    (h : Loaded settings s name blocks) (hk : s.kept ≤ u.kept) : Loaded settings u name blocks := by
  obtain ⟨key, t, ht, rfl⟩ := h
  exact loaded_of_load ht hk

/-! ## The templates of a chain -/

/-- The names of the chain were included one in the other: the last one in the blocks `root`, and
each other one in the template of the next. The blocks are those that the first one stands for. -/
inductive Chained (settings : Settings) (s : State) (root : List Block) :
    List String → List Block → Prop
  | nil : Chained settings s root [] root
  | cons {chain : List String} {outer blocks : List Block} {name : String}
      (h : Chained settings s root chain outer) (hi : Includes settings outer name)
      (hl : Loaded settings s name blocks) : Chained settings s root (name :: chain) blocks

section

variable {s u : State} {root blocks : List Block} {chain : List String} {name : String}

theorem Chained.mono (h : Chained settings s root chain blocks) (hk : s.kept ≤ u.kept) :
    Chained settings u root chain blocks := by
  induction h with
  | nil => exact .nil
  | cons _ hi hl ih => exact .cons ih hi (hl.mono hk)

/-- The template of the first name is known to include the second name. -/
def Links (settings : Settings) (s : State) (name other : String) : Prop :=
  ∃ blocks, Loaded settings s name blocks ∧ Includes settings blocks other

/-- From the outermost inclusion on, each template includes the next one. -/
theorem Chained.isChain (h : Chained settings s root chain blocks)
    (hi : Includes settings blocks name) :
    (name :: chain).reverse.IsChain (Links settings s) := by
  rw [List.isChain_reverse]
  induction h generalizing name with
  | nil => exact .singleton _
  | cons _ hi' hl ih => exact .cons_cons ⟨_, hl, hi⟩ (ih hi')

/-- The outermost inclusion is in the tree that the rendering began with. -/
theorem Chained.head (h : Chained settings s root chain blocks)
    (hi : Includes settings blocks name) :
    ∃ first ∈ (name :: chain).reverse.head?, Includes settings root first := by
  induction h generalizing name with
  | nil => exact ⟨name, rfl, hi⟩
  | cons _ hi' _ ih =>
    obtain ⟨first, hfirst, hroot⟩ := ih hi'
    refine ⟨first, ?_, hroot⟩
    rw [List.reverse_cons, List.head?_append, Option.mem_def.1 hfirst]
    rfl

end

/-! ## The chain at the points of a rendering -/

/-- A point whose chain belongs to templates: its task is a part of the last one. -/
def Point.Stands (settings : Settings) (root : List Block) (p : Point) : Prop :=
  ∃ whole, Chained settings p.state root p.state.chain whole ∧
    ∀ name, Includes settings p.task.parts name → Includes settings whole name

/-- What goes on in the same chain, with a part of the blocks, still stands there. -/
theorem Point.Stands.of_part {root : List Block} {p q : Point} (h : p.Stands settings root)
    (hk : p.state.kept ≤ q.state.kept) (hc : q.state.chain = p.state.chain)
    (hpart : ∀ name, Includes settings q.task.parts name →
      Includes settings p.task.parts name) : q.Stands settings root := by
  obtain ⟨whole, hw, hp⟩ := h
  exact ⟨whole, hc ▸ hw.mono hk, fun name hn => hp name (hpart name hn)⟩

/-- An inclusion puts a name before the chain, and goes on with the blocks of its template; all else
goes on with a part of the blocks. -/
theorem Leads.stands {root : List Block} {p q : Point} (h : Leads settings p q)
    (hp : p.Stands settings root) : q.Stands settings root := by
  have hk := h.grows
  cases h with
  | loop hv hi => exact hp.of_part hk ((frames_evaluate _).chain_eq hv) fun _ hn => hn.body
  | cond hv ht => exact hp.of_part hk ((frames_evaluate _).chain_eq hv) fun _ hn => hn.body
  | static | bindLoop | bindCond => exact hp.of_part hk rfl fun _ hn => hn.body
  | item | bindStatic => exact hp.of_part hk rfl fun _ hn => hn
  | @items _ _ _ _ _ _ s s' _ h =>
    have hchain : s'.chain = s.chain := Point.chain_eq h
    exact hp.of_part hk hchain fun _ hn => hn
  | first | bindFirst =>
    exact hp.of_part hk rfl fun _ hn => hn.mono (List.cons_subset_cons _ (List.nil_subset _))
  | @next _ _ _ _ _ s s' _ h | @bindNext _ _ _ _ s s' _ h =>
    have hchain : s'.chain = s.chain := Point.chain_eq h
    exact hp.of_part hk hchain fun _ hn => hn.mono (List.subset_cons_self _ _)
  | @inclusion _ _ l resource attributes s s₁ s₂ key bindings t hc hd hl hb =>
    obtain ⟨whole, hw, hpart⟩ := hp
    have hchain : s₂.chain = s.chain :=
      ((frames_evaluateBindings _).chain_eq hb).trans ((frames_load _ _).chain_eq hl)
    have hloaded : Loaded settings (s₂.enter (canonicalName settings resource) bindings)
        (canonicalName settings resource) t.blocks := by
      have hbindings : s₁.kept ≤ s₂.kept := evaluateBindings_grows hb
      exact loaded_of_load hl hbindings
    have hincludes := hpart _ (includes_inclusion l resource attributes)
    refine ⟨t.blocks, ?_, fun _ hn => hn⟩
    show Chained settings _ root (canonicalName settings resource :: s₂.chain) t.blocks
    rw [hchain]
    exact .cons (hw.mono hk) hincludes hloaded

/-- At every point of a rendering that began without inclusions, the chain belongs to templates that
were included one in the other. -/
theorem Passes.stands {p q : Point} (h : Passes settings p q) (hp : p.state.chain = []) :
    q.Stands settings p.task.parts := by
  induction h with
  | refl => exact ⟨p.task.parts, hp ▸ .nil, fun _ hn => hn⟩
  | tail _ h ih => exact h.stands ih

/-! ## Errors that report a cycle -/

/-- In the state `s`, the chain is that of templates which include each other, from the tree `root`
on and up to the template that is included for the second time. -/
structure RealCycle (settings : Settings) (root : List Block) (s : State) (name : String)
    (chain : List String) : Prop where
  getLast?_eq : chain.getLast? = some name
  count_eq : chain.dropLast.count name = 1
  nodup : chain.dropLast.Nodup
  length_le : chain.dropLast.length ≤ settings.config.maxInclusionDepth
  head : ∃ first ∈ chain.head?, Includes settings root first
  links : chain.IsChain (Links settings s)

theorem Chained.realCycle {s : State} {root blocks : List Block} {chain : List String}
    {name : String} (h : Chained settings s root chain blocks) (hi : Includes settings blocks name)
    (hm : name ∈ chain) (hlegal : Legal settings chain) :
    RealCycle settings root s name (name :: chain).reverse := by
  have hlast : (name :: chain).reverse.dropLast = chain.reverse := by simp
  refine ⟨by simp, ?_, ?_, ?_, h.head hi, h.isChain hi⟩ <;> rw [hlast]
  · rw [List.count_reverse]
    exact List.count_eq_one_of_mem hlegal.nodup hm
  · exact List.nodup_reverse.2 hlegal.nodup
  · rw [List.length_reverse]
    exact hlegal.length_le

/-- A point that began without inclusions and reports a cycle has come to a real one. -/
theorem Finishes.realCycle {p : Point} {name : String} {chain : List String} {s' : State}
    (h : Finishes settings p (.error (.cyclicInclusion name chain)) s') (ha : settings.Answers)
    (hp : p.state.chain = []) : RealCycle settings p.task.parts s' name chain := by
  obtain ⟨holder, place, l, resource, attributes, s, hpq, hr, hk⟩ := h.refusal ha rfl trivial
  obtain ⟨whole, hw, hpart⟩ := hpq.stands hp
  have hlegal : Legal settings s.chain := hpq.legal (hp ▸ legal_nil settings)
  cases hr with
  | cycle hm =>
    exact (hw.mono hk.le).realCycle (hpart _ (includes_inclusion l resource attributes)) hm hlegal

/-- A rendering that begins without inclusions reports real cycles only, and so does the binding of
static blocks, whatever is kept and whatever texts a loader has, as long as the loader does not
itself answer with an error of the chain (`hloader`): the reported chain begins in the tree that is
rendered, each template in it includes the next one, only the last name has occurred before, and the
names before it are different and no more than the limit. -/
theorem renderBlocks_realCycle (settings : Settings)
    (hloader : ∀ loader, settings.loader = some loader → loader.Answers) (holder : Holder)
    (blocks : List Block) (context : Context) (cells : Cells) (store : Store)
    (expressions : Expression.Cache) (name : String) (chain : List String) (after : State) :
    let s : State := { context, cells, store, expressions }
    (run (renderBlocks (including settings) holder [] 0 blocks) s =
        (.error (.cyclicInclusion name chain), after) →
      RealCycle settings blocks after name chain) ∧
    (run (bindBlocks settings [] 0 blocks) s = (.error (.cyclicInclusion name chain), after) →
      RealCycle settings blocks after name chain) := by
  intro s
  constructor
  · intro h
    have hf : Finishes settings ⟨holder, .blocks [] 0 blocks, s⟩ _ after :=
      Point.finishes h trivial
    exact hf.realCycle hloader rfl
  · intro h
    have hrun : Point.run settings ⟨.own, .bindBlocks [] 0 blocks, s⟩ =
        (.error (.cyclicInclusion name chain), after) :=
      (Point.run_silent _ s).trans (by rw [h]; rfl)
    have hf : Finishes settings ⟨.own, .bindBlocks [] 0 blocks, s⟩ _ after :=
      Point.finishes hrun rfl
    exact hf.realCycle hloader rfl

/-- The cycle that a result reports. -/
def cycle? {α : Type} : Except Error α → Option (String × List String)
  | .error (.cyclicInclusion name chain) => some (name, chain)
  | _ => none

theorem eq_error_of_cycle? {α : Type} {r : Except Error α} {name : String} {chain : List String}
    (h : cycle? r = some (name, chain)) : r = .error (.cyclicInclusion name chain) := by
  unfold cycle? at h
  split at h
  · cases h
    rfl
  · cases h

/-- Two templates that include each other, one from inside of static blocks, the other one by a name
with a slash. -/
def ring : Settings where
  loader := some <| Shelf.loader <| Shelf.ofList
    [("a", "<static>a<static><include resource:'b'/></static></static>"),
      ("b", "<include resource:'/a'/>")]

/-- Whoever includes `a` comes to `a` once more, through `b`. -/
theorem ring_realCycle :
    let blocks := [Block.static ⟨1, 1, 0⟩ "" [.inclusion ⟨1, 9, 8⟩ "/a" []]]
    let rendered := run (renderBlocks (including ring) .own [] 0 blocks) { context := {} }
    let bound := run (bindBlocks ring [] 0 blocks) { context := {} }
    rendered.1 = .error (.cyclicInclusion "a" ["a", "b", "a"]) ∧
      RealCycle ring blocks rendered.2 "a" ["a", "b", "a"] ∧
      bound.1 = .error (.cyclicInclusion "a" ["a", "b", "a"]) ∧
      RealCycle ring blocks bound.2 "a" ["a", "b", "a"] := by
  intro blocks rendered bound
  have hloader : ∀ loader, ring.loader = some loader → loader.Answers := by
    rintro loader ⟨⟩
    exact Shelf.answers _
  have hr : rendered.1 = .error (.cyclicInclusion "a" ["a", "b", "a"]) :=
    eq_error_of_cycle? (by decide +kernel)
  have hb : bound.1 = .error (.cyclicInclusion "a" ["a", "b", "a"]) :=
    eq_error_of_cycle? (by decide +kernel)
  have h := renderBlocks_realCycle ring hloader .own blocks {} [] {} [] "a" ["a", "b", "a"]
  exact ⟨hr, (h rendered.2).1 (Prod.ext hr rfl), hb, (h bound.2).2 (Prod.ext hb rfl)⟩

end Stencil.Render
