import Stencil.Proofs.Engine.Results
import Stencil.Proofs.Render.Siblings

/-!
# Errors and the history

The text of a static block in an included template is kept for every later rendering. It is rendered
below the inclusions that lead to it first, and later ones may be so many that the body of the block
would exceed the limit of inclusions, or include a template for the second time: such an error is
masked. All other errors are independent of the history, and the limit is independent of the order
of inclusions that have a text by themselves (`renderText_error_after`).
-/

namespace Stencil.Engine

open Render (Point Masked IsInclusion IsText)

/-! ## Results that report the limit -/

/-- The limit that a result says to be exceeded. -/
def limit? : Except Error String → Option Nat
  | .error (.inclusionDepthExceeded limit) => some limit
  | _ => none

theorem eq_error_of_limit? {r : Except Error String} {limit : Nat} (h : limit? r = some limit) :
    r = .error (.inclusionDepthExceeded limit) := by
  unfold limit? at h
  split at h
  · cases h
    rfl
  · cases h

theorem shallow_limit :
    (shallow.renderText "<include resource:'c'/>" .null).1 =
      .error (.inclusionDepthExceeded 2) :=
  eq_error_of_limit? (by decide +kernel)

theorem siblings_limit :
    (shallow.renderText "<include resource:'c'/><include resource:'a'/>" .null).1 =
      .error (.inclusionDepthExceeded 2) :=
  eq_error_of_limit? (by decide +kernel)

/-- Whether a block is an inclusion. -/
def inclusion? : Markup.Block → Bool
  | .inclusion _ _ _ => true
  | _ => false

theorem isInclusion_of_inclusion? {b : Markup.Block} (h : inclusion? b = true) :
    IsInclusion b := by
  cases b with
  | inclusion l resource attributes => exact ⟨l, resource, attributes, rfl⟩
  | text | inline | loop | cond | static => cases h

/-- The inclusions of `c` and `a`, in this order. -/
def siblings : List Markup.Block :=
  match shallow.read "<include resource:'c'/><include resource:'a'/>" with
  | .ok t => t.blocks
  | .error _ => []

theorem siblings_eq :
    ∃ x y, siblings = [x, y] ∧ IsInclusion x ∧ IsInclusion y ∧
      shallow.read "<include resource:'c'/><include resource:'a'/>" = .ok ⟨[x, y], []⟩ := by
  have hmap : siblings.map inclusion? = [true, true] := by decide +kernel
  obtain ⟨x, xs, hs, hx, hmap⟩ := List.map_eq_cons_iff.1 hmap
  obtain ⟨y, ys, rfl, hy, hmap⟩ := List.map_eq_cons_iff.1 hmap
  obtain rfl := List.map_eq_nil_iff.1 hmap
  refine ⟨x, y, hs, isInclusion_of_inclusion? hx, isInclusion_of_inclusion? hy, ?_⟩
  unfold siblings at hs
  cases hr : shallow.read "<include resource:'c'/><include resource:'a'/>" with
  | error e =>
    rw [hr] at hs
    cases hs
  | ok t =>
    rw [hr] at hs
    have hblocks : t.blocks = [x, y] := hs
    rw [Store.readTemplate_inv hr, hblocks]

/-! ## Errors after a history -/

/-- An error of an unused engine is one of an engine with any history, unless that engine masks it
by the text of a static block. If two inclusions with nothing but text between them exceed the
limit, they do so in the other order, unless the one that then comes first fails by itself or masks
the error. -/
theorem renderText_error_after (config : Config) (loader : Option Loader)
    (operations : List Operation) (source : String) (data : Value) :
    (∀ err, ((new config loader).renderText source data).1 = .error err →
      (((new config loader).after operations).renderText source data).1 = .error err ∨
      ∃ p, (new config loader).Begins source data p ∧
        Masked ⟨config, loader⟩ ((new config loader).after operations).store p err) ∧
    ∀ holder place index x y texts rest s limit,
      IsInclusion x → IsInclusion y → (∀ b ∈ texts, IsText b) →
      ((new config loader).after operations).Reaches source data
        ⟨holder, .blocks place index (x :: (texts ++ y :: rest)), s⟩ →
      (Point.run ⟨config, loader⟩
        ⟨holder, .blocks place index (x :: (texts ++ y :: rest)), s⟩).1 =
        .error (.inclusionDepthExceeded limit) →
      (Point.run ⟨config, loader⟩
        ⟨holder, .blocks place index (y :: (texts ++ x :: rest)), s⟩).1 =
        .error (.inclusionDepthExceeded limit) ∨
      (∃ err, (Point.run ⟨config, loader⟩ ⟨holder, .block (index :: place) y, s⟩).1 =
          .error err ∧
        (Point.run ⟨config, loader⟩
          ⟨holder, .blocks place index (y :: (texts ++ x :: rest)), s⟩).1 = .error err) ∨
      Masked ⟨config, loader⟩
        (Point.run ⟨config, loader⟩ ⟨holder, .block (index :: place) y, s⟩).2.store
        ⟨holder, .block (index :: place) x, s⟩ (.inclusionDepthExceeded limit) := by
  constructor
  · intro err h
    rcases renderText_follows (settings_after _ operations) (sound_new config loader)
      (sound_after config loader operations) nofun source data with hsame | ⟨err', p, he, hp, hm⟩
    · exact .inl (hsame.trans h)
    · cases he.symm.trans h
      exact .inr ⟨p, hp, hm⟩
  · intro holder place index x y texts rest s limit hx hy htexts hp h
    have hready := hp.ready (sound_after config loader operations)
    rw [settings_after] at hready
    exact Render.limit_swap hx hy htexts hready h

/-- An engine that has rendered `a` masks the error in `c`, and so does the inclusion of `a` if it
comes before that of `c`. -/
theorem shallow_masks :
    (∃ p, shallow.Begins "<include resource:'c'/>" .null p ∧
      Masked shallow.settings
        (shallow.after [.renderText "<include resource:'a'/>" .null]).store p
        (.inclusionDepthExceeded 2)) ∧
    ∃ x y s,
      shallow.Reaches "<include resource:'c'/><include resource:'a'/>" .null
        ⟨.own, .blocks [] 0 [x, y], s⟩ ∧
      Masked shallow.settings (Point.run shallow.settings ⟨.own, .block [0] y, s⟩).2.store
        ⟨.own, .block [0] x, s⟩ (.inclusionDepthExceeded 2) := by
  constructor
  · rcases (renderText_error_after { maxInclusionDepth := 2 } (some nested.loader)
      [.renderText "<include resource:'a'/>" .null] "<include resource:'c'/>" .null).1 _
      shallow_limit with h | h
    · cases h.symm.trans shallow_used
    · exact h
  · obtain ⟨x, y, hs, hx, hy, hr⟩ := siblings_eq
    have hbind : (shallow.bindPoint ⟨[x, y], []⟩).run shallow.settings =
        (.ok "", shallow.start ⟨[x, y], []⟩ Context.empty) := by
      obtain ⟨l, resource, attributes, rfl⟩ := hx
      obtain ⟨l', resource', attributes', rfl⟩ := hy
      rfl
    have hreaches : shallow.Reaches "<include resource:'c'/><include resource:'a'/>" .null
        ⟨.own, .blocks [] 0 [x, y], shallow.start ⟨[], []⟩ Context.empty⟩ :=
      ⟨_, .render hr hbind rfl, .refl⟩
    have hlimit : (Point.run shallow.settings
        ⟨.own, .blocks [] 0 [x, y], shallow.start ⟨[], []⟩ Context.empty⟩).1 =
        .error (.inclusionDepthExceeded 2) :=
      (renderText_run hr hbind rfl).symm.trans siblings_limit
    have hswap : (Point.run shallow.settings
        ⟨.own, .blocks [] 0 siblings.reverse, shallow.start ⟨[], []⟩ Context.empty⟩).1 =
        .ok "bb" := eq_ok_of_toOption (by decide +kernel)
    rw [hs] at hswap
    rcases (renderText_error_after { maxInclusionDepth := 2 } (some nested.loader) []
      "<include resource:'c'/><include resource:'a'/>" .null).2 .own [] 0 x y [] [] _ 2 hx hy
      nofun hreaches hlimit with h | ⟨e, -, h⟩ | h
    · cases h.symm.trans hswap
    · cases h.symm.trans hswap
    · exact ⟨x, y, _, hreaches, h⟩

/-- The limit is not reported for `c` if the engine has rendered `a`, or if the text includes `a`
first. Nor is it if the text first includes `d`, which does not exist. -/
theorem shallow_depends :
    ((shallow.renderText "<include resource:'c'/>" .null).1 =
        .error (.inclusionDepthExceeded 2) ∧
      ((shallow.after [.renderText "<include resource:'a'/>" .null]).renderText
        "<include resource:'c'/>" .null).1 = .ok "b") ∧
    ((shallow.renderText "<include resource:'c'/><include resource:'a'/>" .null).1 =
        .error (.inclusionDepthExceeded 2) ∧
      (shallow.renderText "<include resource:'a'/><include resource:'c'/>" .null).1 = .ok "bb") ∧
    ((shallow.renderText "<include resource:'c'/><include resource:'d'/>" .null).1 =
        .error (.inclusionDepthExceeded 2) ∧
      limit? (shallow.renderText "<include resource:'d'/><include resource:'c'/>" .null).1 =
        none) := by
  refine ⟨⟨shallow_limit, shallow_used⟩, ⟨siblings_limit, ?_⟩, ?_, ?_⟩
  · exact eq_ok_of_toOption (by decide +kernel)
  · exact eq_error_of_limit? (by decide +kernel)
  · decide +kernel

end Stencil.Engine
