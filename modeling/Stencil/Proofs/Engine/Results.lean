import Stencil.Proofs.Engine.History
import Stencil.Proofs.Render.Twins

/-!
# Results do not depend on the history

An engine keeps templates, expressions and texts of static blocks in order to do less, and may thus
render what an unused engine cannot. It never renders anything else: `renderText_after`.
-/

namespace Stencil.Engine

open Render (Point Twins)

/-! ## An engine with a low limit -/

/-- The template `a` has a static block that includes `b`, and `c` includes `a`. -/
def nested : Shelf :=
  Shelf.ofList [("a", "<static><include resource:'b'/></static>"), ("b", "b"),
    ("c", "<include resource:'a'/>")]

/-- Only two inclusions may be inside of each other. -/
def shallow : Engine := new { maxInclusionDepth := 2 } (some nested.loader)

/-- After `a` was rendered `c` has a text as well. -/
theorem shallow_used :
    ((shallow.after [.renderText "<include resource:'a'/>" .null]).renderText
      "<include resource:'c'/>" .null).1 = .ok "b" :=
  eq_ok_of_toOption (by decide +kernel)

/-! ## Results after a history -/

/-- Engines with the same settings that keep what is sound agree on the text, if both have one. -/
theorem renderText_unique {e e' : Engine} (hsettings : e'.settings = e.settings) (h : e.Sound)
    (h' : e'.Sound) {source text text' : String} {data : Value}
    (hr : (e.renderText source data).1 = .ok text)
    (hr' : (e'.renderText source data).1 = .ok text') : text' = text := by
  obtain ⟨t, bound, s, c, s₁, ht, hb, hc, hrun⟩ := renderText_inv hr
  obtain ⟨t', bound', u, c', u₁, ht', hb', hc', hrun'⟩ := renderText_inv hr'
  have hread : e'.read source = e.read source := by
    rw [read, read, hsettings]
  cases ht'.symm.trans (hread.trans ht)
  cases hc'.symm.trans hc
  rw [hsettings] at hb' hrun'
  have hsound : Render.Sound e.settings e'.store e'.expressions := hsettings ▸ h'
  have hstart : Twins e.settings (e.start t Context.empty) (e'.start t Context.empty) :=
    ⟨h, hsound, rfl, rfl⟩
  obtain ⟨hs, hu, -, hcells⟩ := hstart.bindBlocks hb hb'
  have hrestart : Twins e.settings (restart c s) (restart c u) := ⟨hs, hu, rfl, hcells⟩
  exact (hrestart.blocks hrun hrun').1

/-- What an unused engine renders, an engine with any history renders as well, and to the same text.
Any two engines that render a text at all render it to the same text, whatever their histories. -/
theorem renderText_after (config : Config) (loader : Option Loader) (source : String)
    (data : Value) :
    (∀ operations text, ((new config loader).renderText source data).1 = .ok text →
      (((new config loader).after operations).renderText source data).1 = .ok text) ∧
    ∀ operations operations' text text',
      (((new config loader).after operations).renderText source data).1 = .ok text →
      (((new config loader).after operations').renderText source data).1 = .ok text' →
      text' = text := by
  constructor
  · intro operations text h
    rcases renderText_follows (settings_after _ operations) (sound_new config loader)
      (sound_after config loader operations) nofun source data with hsame | ⟨err, p, he, -⟩
    · exact hsame.trans h
    · cases he.symm.trans h
  · intro operations operations' text text' h h'
    have hsettings : ((new config loader).after operations').settings =
        ((new config loader).after operations).settings :=
      (settings_after _ operations').trans (settings_after _ operations).symm
    exact renderText_unique hsettings (sound_after config loader operations)
      (sound_after config loader operations') h h'

/-- A rendering that failed does not matter, nor does a template that could not be read. -/
theorem shallow_results :
    ((shallow.after [.renderText "<include resource:'c'/>" .null]).renderText
      "<include resource:'a'/>" .null).1 = .ok "b" ∧
    ∃ text text',
      ((shallow.after [.renderText "<include resource:'a'/>" .null]).renderText
        "<include resource:'c'/>" .null).1 = .ok text ∧
      ((shallow.after [.parse "<static>", .renderText "<include resource:'a'/>" .null]).renderText
        "<include resource:'c'/>" .null).1 = .ok text' ∧ text' = text := by
  obtain ⟨hfresh, -⟩ := renderText_after { maxInclusionDepth := 2 } (some nested.loader)
    "<include resource:'a'/>" .null
  have ha : (shallow.renderText "<include resource:'a'/>" .null).1 = .ok "b" :=
    eq_ok_of_toOption (by decide +kernel)
  have hc : ((shallow.after [.parse "<static>",
      .renderText "<include resource:'a'/>" .null]).renderText
      "<include resource:'c'/>" .null).1 = .ok "b" := eq_ok_of_toOption (by decide +kernel)
  refine ⟨hfresh _ "b" ha, "b", "b", shallow_used, hc, ?_⟩
  exact (renderText_after { maxInclusionDepth := 2 } (some nested.loader)
    "<include resource:'c'/>" .null).2 _ _ _ _ shallow_used hc

end Stencil.Engine
