import Stencil.Proofs.Engine.Limits
import Stencil.Proofs.Render.Again

/-!
# Renderings that are repeated

`Reachable` says which templates and expressions renderings can find: those that other renderings
and the binding of static blocks left behind, with any limit on inclusions, and with templates being
loaded and dropped and expressions being evaluated in between. An engine with any history keeps such
ones (`reachable_after`).

From there on a rendering puts context and chain back as they were (`render_restores`), and has the
same result when it is repeated, which adds nothing any more (`render_repeats`).
-/

namespace Stencil

open Markup (Block)
open Render

/-- The blocks are those of a tree that is rendered for itself, or of a stored template. -/
def Store.Holds (store : Store) : Holder → List Block → Prop
  | .own, _ => True
  | .stored key, blocks => ∃ t, Fields.get? key store.templates = some t ∧ t.blocks = blocks

/-- The settings with another limit on inclusions. -/
def Settings.limited (settings : Settings) (limit : Nat) : Settings :=
  { settings with config := { settings.config with maxInclusionDepth := limit } }

/-- The templates and expressions that renderings with these settings may find. A rendering begins
without inclusions; static blocks of its own tree may have any texts. The binding of a stored
template renders some of its static blocks, one after the other. -/
inductive Reachable : Settings → Store → Expression.Cache → Prop
  | empty {settings} : Reachable settings {} []
  | render {settings store expressions holder blocks s} (h : Reachable settings store expressions)
      (hb : store.Holds holder blocks) (context : Context) (cells : Cells)
      (hs : s = (run (renderBlocks (including settings) holder [] 0 blocks)
        { context, cells, store, expressions }).2) :
      Reachable settings s.store s.expressions
  | bind {settings store expressions s} (h : Reachable settings store expressions)
      (blocks : List Block) (context : Context) (cells : Cells)
      (hs : s = (run (bindBlocks settings [] 0 blocks) { context, cells, store, expressions }).2) :
      Reachable settings s.store s.expressions
  | static {settings store expressions key t index place l raw body s}
      (h : Reachable settings store expressions)
      (ht : Fields.get? key store.templates = some t)
      (hb : (Settings.bodyIn t.blocks place).bind (·[index]?) = some (.static l raw body))
      (context : Context) (cells : Cells)
      (hs : s = (run (renderBlock (including settings) (.stored key) (index :: place)
        (.static l raw body)) { context, cells, store, expressions }).2) :
      Reachable settings s.store s.expressions
  | load {settings store expressions loader} (h : Reachable settings store expressions)
      (hl : settings.loader = some loader) (name : String) :
      Reachable settings (store.load loader settings.config.parseOptions name).2 expressions
  | clear {settings store expressions} (h : Reachable settings store expressions) :
      Reachable settings store.clear expressions
  | evaluate {settings store expressions} (h : Reachable settings store expressions)
      (source : String) (c : Context) :
      Reachable settings store (expressions.evaluate source c).2
  | limit {settings store expressions} (h : Reachable settings store expressions) (limit : Nat) :
      Reachable (settings.limited limit) store expressions

section

variable {settings : Settings} {store : Store} {expressions : Expression.Cache}

theorem Render.Sound.ready {holder : Holder} {blocks : List Block} {s : State}
    (h : Render.Sound settings s.store s.expressions) (hb : s.store.Holds holder blocks) :
    Ready settings ⟨holder, .blocks [] 0 blocks, s⟩ := by
  refine ⟨h, ?_⟩
  rintro key rfl
  obtain ⟨t, ht, rfl⟩ := hb
  refine ⟨Option.isSome_iff_exists.2 ⟨t, ht⟩, t.blocks, ?_, rfl⟩
  rw [Settings.bodyAt, h.templates key t ht]
  rfl

theorem Render.Sound.ready_own {task : Task} {s : State}
    (h : Render.Sound settings s.store s.expressions) : Ready settings ⟨.own, task, s⟩ :=
  ⟨h, nofun⟩

theorem Render.Sound.ready_static {s : State} {key raw : String} {t : Template} {index : Nat}
    {place : Place} {l : Markup.Location} {body : List Block}
    (h : Render.Sound settings s.store s.expressions)
    (ht : Fields.get? key s.store.templates = some t)
    (hb : (Settings.bodyIn t.blocks place).bind (·[index]?) = some (.static l raw body)) :
    Ready settings ⟨.stored key, .block (index :: place) (.static l raw body), s⟩ := by
  refine ⟨h, ?_⟩
  rintro _ ⟨⟩
  obtain ⟨whole, hwhole, hget⟩ := Option.bind_eq_some_iff.1 hb
  refine ⟨Option.isSome_iff_exists.2 ⟨t, ht⟩, ?_⟩
  show settings.bodyAt key (index :: place) = some body
  rw [Settings.bodyAt, h.templates key t ht]
  show (Settings.bodyIn t.blocks place).bind _ = _
  rw [hwhole, Option.bind_some, hget]
  rfl

theorem Render.Sound.clear (h : Render.Sound settings store expressions) :
    Render.Sound settings store.clear expressions :=
  ⟨h.expressions, nofun, nofun⟩

/-- The limit does not matter to what is yielded. -/
theorem Render.Yields.limited {known : String → Place → Option String} {key : String}
    {c : Context} {task : Task} {text : String} (h : Yields settings known key c task text)
    (limit : Nat) : Yields (settings.limited limit) known key c task text := by
  induction h with
  | text => exact .text
  | inline hv => exact .inline hv
  | loop hv hi _ ih => exact .loop hv hi ih
  | condTrue hv ht _ ih => exact .condTrue hv ht ih
  | condFalse hv ht => exact .condFalse hv ht
  | static hk _ ih => exact .static hk ih
  | inclusion hs hb _ ih => exact .inclusion hs hb ih
  | nil => exact .nil
  | cons _ _ ih iht => exact .cons ih iht
  | itemsNil => exact .itemsNil
  | itemsCons _ _ ih iht => exact .itemsCons ih iht

theorem Render.Sound.limited (h : Render.Sound settings store expressions) (limit : Nat) :
    Render.Sound (settings.limited limit) store expressions := by
  refine ⟨h.expressions, h.templates, ?_⟩
  intro key place text hk
  obtain ⟨body, hb, hy⟩ := h.statics key place text hk
  exact ⟨body, hb, hy.limited limit⟩

/-- What can be found agrees with what would be read and rendered anew. -/
theorem Reachable.sound (h : Reachable settings store expressions) :
    Render.Sound settings store expressions := by
  induction h with
  | empty => exact sound_empty _
  | render _ hb context cells hs ih =>
    have hp := Render.Sound.ready (s := { context, cells, store := _, expressions := _ }) ih hb
    rw [hs]
    exact (Point.outcome _ hp _ _ rfl).sound
  | @bind settings store expressions s _ blocks context cells hs ih =>
    let p : Point := ⟨.own, .bindBlocks [] 0 blocks, { context, cells, store, expressions }⟩
    have hp : Ready settings p := Render.Sound.ready_own ih
    have hrun : p.run settings = _ := Point.run_silent _ _
    rw [hs]
    exact (Point.outcome p hp _ _ hrun).sound
  | static _ ht hb context cells hs ih =>
    have hp := Render.Sound.ready_static
      (s := { context, cells, store := _, expressions := _ }) ih ht hb
    rw [hs]
    exact (Point.outcome _ hp _ _ rfl).sound
  | load _ hl name ih =>
    obtain ⟨r, store', hr, hs, -⟩ := ih.load hl name
    rwa [hr]
  | clear _ ih => exact ih.clear
  | evaluate _ source c ih =>
    obtain ⟨cache, hv, he⟩ := ih.expressions.evaluate source c
    rw [he]
    exact { ih with expressions := hv }
  | limit _ limit ih => exact ih.limited limit

end

/-! ## Engines -/

namespace Engine

variable {e : Engine}

/-- What the engine keeps can be found by renderings. -/
def Reached (e : Engine) : Prop := Reachable e.settings e.store e.expressions

theorem Reached.render (h : e.Reached) (t : Template) (c : Context) : (e.render t c).2.1.Reached :=
  Reachable.render h (show e.store.Holds .own t.blocks from trivial) c t.cells rfl

theorem Reached.renderData (h : e.Reached) (t : Template) (data : Value) :
    (e.renderData t data).2.1.Reached := by
  unfold Engine.renderData
  split
  · exact h
  · exact h.render t _

theorem Reached.parse (h : e.Reached) (source : String) : (e.parse source).2.Reached := by
  unfold Engine.parse
  split
  · exact h
  · rename_i t _
    have hb : (e.bind t).2.1.Reached := Reachable.bind h t.blocks Context.empty t.cells rfl
    split
    · rename_i e' t' hbind
      rwa [hbind] at hb
    · rename_i err e' t' hbind
      rwa [hbind] at hb

theorem Reached.renderText (h : e.Reached) (source : String) (data : Value) :
    (e.renderText source data).2.Reached := by
  have hp := h.parse source
  unfold Engine.renderText
  split
  · rename_i err e' hparse
    rwa [hparse] at hp
  · rename_i t e' hparse
    rw [hparse] at hp
    exact hp.renderData t data

theorem Reached.load (h : e.Reached) (name : String) : (e.load name).2.Reached := by
  unfold Engine.load
  split
  · exact h
  · rename_i loader hl
    exact Reachable.load h hl name

theorem Reached.used (h : e.Reached) (operation : Operation) : (e.used operation).Reached := by
  cases operation with
  | parse source => exact h.parse source
  | render t data => exact h.renderData t data
  | renderText source data => exact h.renderText source data
  | renderIn t c => exact h.render t c
  | load name => exact h.load name
  | clear => exact Reachable.clear h
  | evaluate source c => exact Reachable.evaluate h source c

theorem reachable_after (config : Config) (loader : Option Loader) (operations : List Operation) :
    ((new config loader).after operations).Reached := by
  have hafter : ∀ e : Engine, e.Reached → (e.after operations).Reached := by
    induction operations with
    | nil => exact fun _ h => h
    | cons operation operations ih => exact fun e h => ih _ (h.used operation)
  exact hafter _ .empty

end Engine

/-! ## Repetition -/

namespace Render

/-- Whatever the result of a rendering, and however deep inside of loops, inclusions, bindings and
static blocks an error comes from: the root bindings and the local scopes of the context are what
they were, and so is the chain of inclusions. This holds of all that a rendering consists of, and
of renderings by an engine. -/
theorem render_restores (settings : Settings) (holder : Holder) (blocks : List Block)
    (s : State) :
    let after := (run (renderBlocks (including settings) holder [] 0 blocks) s).2
    (after.context.root = s.context.root ∧ after.context.scopes = s.context.scopes ∧
      after.chain = s.chain) ∧
    (∀ q : Point, (q.run settings).2.context = q.state.context ∧
      (q.run settings).2.chain = q.state.chain) ∧
    ∀ (e : Engine) t c, (e.render t c).2.2.2 = c := by
  intro after
  obtain ⟨hcontext, hchain⟩ := frames_renderBlocks settings holder [] 0 blocks s
  refine ⟨⟨congrArg Context.root hcontext, congrArg Context.scopes hcontext, hchain⟩, ?_, ?_⟩
  · exact fun q => ⟨Point.context_eq rfl, Point.chain_eq rfl⟩
  · intro e t c
    exact (frames_renderBlocks e.settings .own [] 0 t.blocks (e.start t c)).1

/-- A rendering that is repeated has the same result, be it a text or an error, and no text of a
static block, no template and no expression is added. -/
theorem render_repeats {settings : Settings} {store : Store} {expressions : Expression.Cache}
    (h : Reachable settings store expressions) {holder : Holder} {blocks : List Block}
    (hb : store.Holds holder blocks) (context : Context) (cells : Cells) :
    let rendering := renderBlocks (including settings) holder [] 0 blocks
    let first := run rendering { context, cells, store, expressions }
    let again := run rendering first.2
    let other := run rendering { first.2 with context, chain := [] }
    (again.1 = first.1 ∧ again.2.kept = first.2.kept) ∧
      other.1 = first.1 ∧ other.2.kept = first.2.kept := by
  intro rendering first again other
  let p : Point := ⟨holder, .blocks [] 0 blocks, { context, cells, store, expressions }⟩
  have hp : Ready settings p := h.sound.ready hb
  obtain ⟨hcontext, hchain⟩ := frames_renderBlocks settings holder [] 0 blocks p.state
  exact ⟨Point.repeats (p := p) (u := first.2) hp ⟨hcontext, hchain.symm⟩ rfl,
    Point.repeats hp ⟨rfl, rfl⟩ rfl⟩

/-- After `b` was rendered, the inclusion of `c` fails below `a`, and fails again although `c` and
`a` are stored then. -/
theorem shallow_repeats :
    let e := Engine.shallow.after [.renderText "<include resource:'b'/>" .null]
    let rendering := renderBlocks (including e.settings) .own [] 0 [.inclusion ⟨1, 1, 0⟩ "c" []]
    let first := run rendering ⟨Context.empty, [], [], e.store, e.expressions⟩
    Engine.limit? first.1 = some 2 ∧ e.store.size = 1 ∧ first.2.store.size = 3 ∧
      (run rendering first.2).1 = first.1 ∧ (run rendering first.2).2.kept = first.2.kept := by
  intro e rendering first
  have hreached : Reachable e.settings e.store e.expressions :=
    Engine.reachable_after { maxInclusionDepth := 2 } (some Engine.nested.loader)
      [.renderText "<include resource:'b'/>" .null]
  obtain ⟨⟨hagain, hkept⟩, -⟩ := render_repeats hreached
    (show e.store.Holds .own [.inclusion ⟨1, 1, 0⟩ "c" []] from trivial) Context.empty []
  exact ⟨by decide +kernel, by decide +kernel, by decide +kernel, hagain, hkept⟩

end Render

end Stencil
