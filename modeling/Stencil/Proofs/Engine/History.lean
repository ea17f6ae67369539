import Stencil.Engine
import Stencil.Proofs.Render.Ahead

/-!
# Engines that have been used

An engine may be used in any order by any `Operation`, and goes on whatever the result was. What it
keeps is sound after any history (`sound_after`).

A text is rendered from two points, one for the static blocks of its template and one for the
template itself (`Begins`). An engine that keeps more than another one renders the same text with
the same result, unless it masks an error of the other one (`renderText_follows`).
-/

namespace Stencil

open Render (State Point Passes Ready Ahead Masked)

/-- What may be asked of an engine. The static blocks of a template may have texts already. -/
inductive Operation where
  | parse (source : String)
  | render (t : Template) (data : Value)
  | renderText (source : String) (data : Value)
  | renderIn (t : Template) (c : Context)
  | load (name : String)
  | clear
  | evaluate (source : String) (c : Context)

namespace Engine

/-- The engine after an operation, whatever the result. -/
def used (e : Engine) : Operation → Engine
  | .parse source => (e.parse source).2
  | .render t data => (e.renderData t data).2.1
  | .renderText source data => (e.renderText source data).2
  | .renderIn t c => (e.render t c).2.1
  | .load name => (e.load name).2
  | .clear => e.clear
  | .evaluate source c => (e.evaluate source c).2

/-- The engine after operations, in order. -/
def after (e : Engine) (operations : List Operation) : Engine := operations.foldl used e

/-! ## What engines keep -/

/-- What the engine keeps agrees with what it would read and render anew. -/
def Sound (e : Engine) : Prop := Render.Sound e.settings e.store e.expressions

theorem sound_new (config : Config) (loader : Option Loader) : (new config loader).Sound :=
  Render.sound_empty _

/-- The state in which an engine begins with a template. -/
def start (e : Engine) (t : Template) (c : Context) : State :=
  { context := c, cells := t.cells, store := e.store, expressions := e.expressions }

/-- The engine with what a state keeps. -/
def keeping (e : Engine) (s : State) : Engine :=
  { e with store := s.store, expressions := s.expressions }

/-- Where an engine begins with the static blocks of a template. -/
def bindPoint (e : Engine) (t : Template) : Point :=
  ⟨.own, .bindBlocks [] 0 t.blocks, e.start t Context.empty⟩

/-- Where an engine begins with a template. -/
def renderPoint (e : Engine) (t : Template) (c : Context) : Point :=
  ⟨.own, .blocks [] 0 t.blocks, e.start t c⟩

variable {e e' : Engine} {source : String} {data : Value} {t : Template}

theorem Sound.ready_bindPoint (h : e.Sound) (t : Template) :
    Ready e.settings (e.bindPoint t) :=
  ⟨h, nofun⟩

theorem Sound.ready_renderPoint (h : e.Sound) (t : Template) (c : Context) :
    Ready e.settings (e.renderPoint t c) :=
  ⟨h, nofun⟩

/-- An engine that an operation leaves behind: it keeps what is sound, and has the same settings. -/
def Goes (e e' : Engine) : Prop := e'.settings = e.settings ∧ (e.Sound → e'.Sound)

theorem Goes.trans {e₁ e₂ e₃ : Engine} (h : Goes e₁ e₂) (h' : Goes e₂ e₃) : Goes e₁ e₃ :=
  ⟨h'.1.trans h.1, fun hs => h'.2 (h.2 hs)⟩

theorem goes_render (e : Engine) (t : Template) (c : Context) : Goes e (e.render t c).2.1 := by
  refine ⟨rfl, ?_⟩
  intro h
  exact (Point.outcome _ (h.ready_renderPoint t c) _ _ rfl).sound

theorem goes_renderData (e : Engine) (t : Template) (data : Value) :
    Goes e (e.renderData t data).2.1 := by
  unfold renderData
  split
  · exact ⟨rfl, id⟩
  · rename_i c _
    exact goes_render e t c

theorem bind_of_run {r : Except Error Unit} {s : State}
    (h : Render.run (Render.bindBlocks e.settings [] 0 t.blocks) (e.start t Context.empty) =
      (r, s)) : e.bind t = (r, e.keeping s, { t with cells := s.cells }) :=
  congrArg (fun o : Except Error Unit × State =>
    (o.1, e.keeping o.2, { t with cells := o.2.cells })) h

/-- The binding of static blocks, as the run of a point. -/
theorem bind_eq (e : Engine) (t : Template) :
    e.bind t = (((e.bindPoint t).run e.settings).1.map fun _ => (),
      e.keeping ((e.bindPoint t).run e.settings).2,
      { t with cells := ((e.bindPoint t).run e.settings).2.cells }) := by
  have hrun : (e.bindPoint t).run e.settings = _ := Point.run_silent _ _
  have hunit : ∀ r : Except Error Unit, r = (r.map fun _ => "").map fun _ => () := by
    rintro (_ | _) <;> rfl
  rw [hrun]
  exact Prod.ext (hunit _) rfl

theorem goes_bind (e : Engine) (t : Template) : Goes e (e.bind t).2.1 := by
  rw [bind_eq]
  refine ⟨rfl, ?_⟩
  intro h
  exact (Point.outcome _ (h.ready_bindPoint t) _ _ rfl).sound

theorem goes_parse (e : Engine) (source : String) : Goes e (e.parse source).2 := by
  unfold parse
  split
  · exact ⟨rfl, id⟩
  · rename_i t _
    have hb := goes_bind e t
    split
    · rename_i e' t' h
      rwa [h] at hb
    · rename_i err e' t' h
      rwa [h] at hb

theorem goes_renderText (e : Engine) (source : String) (data : Value) :
    Goes e (e.renderText source data).2 := by
  have hp := goes_parse e source
  unfold renderText
  split
  · rename_i err e' h
    rwa [h] at hp
  · rename_i t e' h
    rw [h] at hp
    exact hp.trans (goes_renderData e' t data)

theorem goes_load (e : Engine) (name : String) : Goes e (e.load name).2 := by
  unfold load
  split
  · exact ⟨rfl, id⟩
  · rename_i loader hl
    refine ⟨rfl, ?_⟩
    intro h
    obtain ⟨r, store, hr, hs, -⟩ := h.load hl name
    show Render.Sound e.settings (e.store.load loader e.settings.config.parseOptions name).2 _
    rw [hr]
    exact hs

theorem goes_clear (e : Engine) : Goes e e.clear := by
  refine ⟨rfl, fun h => ⟨h.expressions, nofun, nofun⟩⟩

theorem goes_evaluate (e : Engine) (source : String) (c : Context) :
    Goes e (e.evaluate source c).2 := by
  refine ⟨rfl, ?_⟩
  intro h
  obtain ⟨cache, hv, he⟩ := h.expressions.evaluate source c
  have hc : (e.evaluate source c).2.expressions = cache := by
    rw [evaluate, he]
  exact { h with expressions := hc ▸ hv }

theorem goes_used (e : Engine) (operation : Operation) : Goes e (e.used operation) := by
  cases operation with
  | parse source => exact goes_parse e source
  | render t data => exact goes_renderData e t data
  | renderText source data => exact goes_renderText e source data
  | renderIn t c => exact goes_render e t c
  | load name => exact goes_load e name
  | clear => exact goes_clear e
  | evaluate source c => exact goes_evaluate e source c

/-- Any number of operations leave an engine behind that keeps what is sound. -/
theorem goes_after (e : Engine) (operations : List Operation) : Goes e (e.after operations) := by
  induction operations generalizing e with
  | nil => exact ⟨rfl, id⟩
  | cons operation operations ih => exact (goes_used e operation).trans (ih _)

theorem settings_after (e : Engine) (operations : List Operation) :
    (e.after operations).settings = e.settings :=
  (goes_after e operations).1

theorem sound_after (config : Config) (loader : Option Loader) (operations : List Operation) :
    ((new config loader).after operations).Sound :=
  (goes_after _ operations).2 (sound_new config loader)

/-! ## The rendering of a text -/

/-- The state in which the rendering of a template begins after its static blocks. -/
def restart (c : Context) (s : State) : State := { s with context := c, chain := [] }

section

variable {err : Error} {c : Context} {s : State} {text : String}

theorem renderText_read (hr : e.read source = .error err) :
    (e.renderText source data).1 = .error err := by
  unfold renderText parse
  rw [hr]

theorem renderText_bind (hr : e.read source = .ok t)
    (hb : (e.bindPoint t).run e.settings = (.error err, s)) :
    (e.renderText source data).1 = .error err := by
  unfold renderText parse
  rw [hr]
  dsimp only
  rw [bind_eq, hb]
  rfl

theorem renderText_data (hr : e.read source = .ok t)
    (hb : (e.bindPoint t).run e.settings = (.ok text, s))
    (hc : Context.ofValue data = .error err) : (e.renderText source data).1 = .error err := by
  unfold renderText parse
  rw [hr]
  dsimp only
  rw [bind_eq, hb]
  show (renderData _ _ data).1 = _
  unfold renderData
  rw [hc]

/-- If there is nothing wrong with the text, its static blocks and the data, the template is
rendered with what is kept after the static blocks. -/
theorem renderText_run (hr : e.read source = .ok t)
    (hb : (e.bindPoint t).run e.settings = (.ok text, s)) (hc : Context.ofValue data = .ok c) :
    (e.renderText source data).1 =
      (Point.run e.settings ⟨.own, .blocks [] 0 t.blocks, restart c s⟩).1 := by
  unfold renderText parse
  rw [hr]
  dsimp only
  rw [bind_eq, hb]
  show (renderData _ _ data).1 = _
  unfold renderData
  rw [hc]
  rfl

theorem renderText_inv (h : (e.renderText source data).1 = .ok text) :
    ∃ t bound s c s', e.read source = .ok t ∧
      (e.bindPoint t).run e.settings = (.ok bound, s) ∧ Context.ofValue data = .ok c ∧
      Point.run e.settings ⟨.own, .blocks [] 0 t.blocks, restart c s⟩ = (.ok text, s') := by
  cases hr : e.read source with
  | error err => cases (renderText_read hr).symm.trans h
  | ok t =>
    rcases hb : (e.bindPoint t).run e.settings with ⟨err | bound, s⟩
    · cases (renderText_bind hr hb).symm.trans h
    cases hc : Context.ofValue data with
    | error err => cases (renderText_data hr hb hc).symm.trans h
    | ok c =>
      have hrun := (renderText_run hr hb hc).symm.trans h
      exact ⟨t, bound, s, c, _, rfl, hb, rfl, Prod.ext hrun rfl⟩

end

/-- The points that the rendering of a text begins with. -/
inductive Begins (e : Engine) (source : String) (data : Value) : Point → Prop
  | bind {t : Template} (ht : e.read source = .ok t) : Begins e source data (e.bindPoint t)
  | render {t : Template} {text : String} {s : State} {c : Context}
      (ht : e.read source = .ok t) (hb : (e.bindPoint t).run e.settings = (.ok text, s))
      (hc : Context.ofValue data = .ok c) :
      Begins e source data ⟨.own, .blocks [] 0 t.blocks, restart c s⟩

/-- The rendering of a text comes to a point. -/
def Reaches (e : Engine) (source : String) (data : Value) (q : Point) : Prop :=
  ∃ p, e.Begins source data p ∧ Passes e.settings p q

/-- What is kept is sound wherever the rendering of a text comes to. -/
theorem Begins.ready {p : Point} (h : e.Sound) (hp : e.Begins source data p) :
    Ready e.settings p := by
  cases hp with
  | bind ht => exact h.ready_bindPoint _
  | render ht hb hc => exact ⟨(Point.outcome _ (h.ready_bindPoint _) _ _ hb).sound, nofun⟩

theorem Reaches.ready {q : Point} (h : e.Sound) (hq : e.Reaches source data q) :
    Ready e.settings q := by
  obtain ⟨p, hp, hpq⟩ := hq
  induction hpq with
  | refl => exact hp.ready h
  | tail _ hlead ih => exact hlead.ready_next ih

/-- An engine that keeps more renders a text with the same result, unless it masks an error. -/
theorem renderText_follows (hsettings : e'.settings = e.settings) (h : e.Sound) (h' : e'.Sound)
    (hkept : Render.KeptIn e.store e'.store.resolved) (source : String) (data : Value) :
    (e'.renderText source data).1 = (e.renderText source data).1 ∨
      ∃ err p, (e.renderText source data).1 = .error err ∧ e.Begins source data p ∧
        Masked e.settings e'.store p err := by
  have hread : e'.read source = e.read source := by
    rw [read, read, hsettings]
  cases hr : e.read source with
  | error err => exact .inl ((renderText_read (hread.trans hr)).trans (renderText_read hr).symm)
  | ok t =>
    have hr' := hread.trans hr
    have hready : Ready e.settings (e'.bindPoint t) := hsettings ▸ h'.ready_bindPoint t
    have hahead : Ahead e'.store (e.start t Context.empty) (e'.start t Context.empty) :=
      ⟨rfl, rfl, rfl, hkept, fun _ _ _ => .inr⟩
    have hfollows := Point.follows _ (h.ready_bindPoint t) _ hready hahead
    rcases hb : (e.bindPoint t).run e.settings with ⟨r, s⟩
    rcases hb' : (e'.bindPoint t).run e.settings with ⟨r', u⟩
    have hf : Render.Follows e.settings e'.store (e.bindPoint t) (r, s) (r', u) := by
      rw [← hb, ← hb']
      exact hfollows
    rw [← hsettings] at hb'
    rcases hf with ⟨hsame, hahead⟩ | ⟨err, he, hm⟩
    · have hsame : r' = r := hsame
      subst hsame
      cases r' with
      | error err => exact .inl ((renderText_bind hr' hb').trans (renderText_bind hr hb).symm)
      | ok text =>
        cases hc : Context.ofValue data with
        | error err =>
          exact .inl ((renderText_data hr' hb' hc).trans (renderText_data hr hb hc).symm)
        | ok c =>
          have hp : Ready e.settings ⟨.own, .blocks [] 0 t.blocks, restart c s⟩ :=
            Begins.ready h (.render hr hb hc)
          have hq : Ready e'.settings ⟨.own, .blocks [] 0 t.blocks, restart c u⟩ :=
            Begins.ready h' (.render hr' hb' hc)
          have hahead : Ahead e'.store (restart c s) (restart c u) :=
            ⟨rfl, rfl, hahead.cells, hahead.kept, hahead.origin⟩
          rw [renderText_run hr hb hc, renderText_run hr' hb' hc, hsettings]
          rcases Point.follows _ hp (restart c u) (hsettings ▸ hq) hahead with
            ⟨hsame, -⟩ | ⟨err, he, hm⟩
          · exact .inl hsame
          · exact .inr ⟨err, _, he, .render hr hb hc, hm⟩
    · have he : r = .error err := he
      subst he
      exact .inr ⟨err, _, renderText_bind hr hb, .bind hr, hm⟩

end Engine

end Stencil
