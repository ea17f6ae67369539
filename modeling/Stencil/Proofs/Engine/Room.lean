import Stencil.Proofs.Engine.Repetition

/-!
# Room for inclusions

An inclusion is refused where its name is in the chain, or where the chain must not grow. The limit
and the chain are read for that and for nothing else. So the same blocks are rendered in the same
way with a higher limit and from a chain of fewer inclusions, step by step and including what is
kept, up to the first inclusion that is refused with less room (`agreeUnlessRefused_including`).

More room turns such an error into whatever comes after it, and it changes no other result
(`renderBlocks_with_room`).
-/

namespace Stencil.Render

open Markup (Block Attributes)

/-! ## Steps that do not read the chain -/

/-- The state with another chain. -/
def State.withChain (chain : List String) (s : State) : State := { s with chain }

theorem State.resolved_withChain (chain : List String) (s : State) (holder : Holder)
    (place : Place) : (s.withChain chain).resolved holder place = s.resolved holder place := by
  cases holder <;> rfl

theorem State.keep_withChain (chain : List String) (s : State) (holder : Holder) (place : Place)
    (text : String) :
    (s.withChain chain).keep holder place text = (s.keep holder place text).withChain chain := by
  cases holder <;> rfl

/-- A step does the same whatever the chain is, and leaves the chain alone. -/
def Unchained {α : Type} (x : Render α) : Prop :=
  Frames x ∧ ∀ s chain, run x (s.withChain chain) = ((run x s).1, (run x s).2.withChain chain)

theorem unchained_evaluate (source : String) : Unchained (evaluate source) :=
  ⟨frames_evaluate source, fun _ _ => rfl⟩

theorem unchained_bind {α β : Type} {x : Render α} {f : α → Render β} (hx : Unchained x)
    (hf : ∀ a, Unchained (f a)) : Unchained (x >>= f) := by
  refine ⟨frames_bind hx.1 fun a => (hf a).1, ?_⟩
  intro s chain
  rw [run_bind, run_bind, hx.2]
  rcases run x s with ⟨e | a, s'⟩
  · rfl
  · exact (hf a).2 s' chain

theorem unchained_evaluateBindings (bindings : List (String × String)) :
    Unchained (evaluateBindings bindings) := by
  induction bindings with
  | nil => exact ⟨frames_evaluateBindings [], fun _ _ => rfl⟩
  | cons binding bindings ih =>
    refine unchained_bind (unchained_evaluate binding.2) fun value => ?_
    refine unchained_bind ih fun values => ?_
    exact ⟨fun _ => ⟨rfl, rfl⟩, fun _ _ => rfl⟩

theorem unchained_load (settings : Settings) (name : String) : Unchained (load settings name) := by
  refine ⟨frames_load settings name, ?_⟩
  intro s chain
  simp only [run, load]
  cases settings.loader <;> rfl

/-! ## Two runs up to the first refusal -/

/-- The result says that an inclusion was refused for the chain. -/
def FailsForChain {α : Type} (r : Except Error α) : Prop := ∃ e, r = .error e ∧ e.OfChain

theorem not_failsForChain_ok {α : Type} (a : α) : ¬FailsForChain (.ok a) := by
  rintro ⟨e, he, -⟩
  cases he

theorem FailsForChain.error {α β : Type} {e : Error} (h : FailsForChain (α := α) (.error e)) :
    FailsForChain (α := β) (.error e) := by
  obtain ⟨e', he, hc⟩ := h
  cases he
  exact ⟨e, rfl, hc⟩

/-- From the one chain the first step is refused, or it does what the second step does from the
other chain. The first one puts context and chain back. -/
def AgreeUnlessRefused (chain chain' : List String) {α : Type} (x y : Render α) : Prop :=
  Frames x ∧ ∀ s, s.chain = chain →
    FailsForChain (run x s).1 ∨
      run y (s.withChain chain') = ((run x s).1, (run x s).2.withChain chain')

section

variable {chain chain' : List String} {α β : Type}

theorem Unchained.agree {x : Render α} (h : Unchained x) : AgreeUnlessRefused chain chain' x x :=
  ⟨h.1, fun s _ => .inr (h.2 s chain')⟩

theorem agreeUnlessRefused_bind {x y : Render α} {f g : α → Render β}
    (hx : AgreeUnlessRefused chain chain' x y)
    (hf : ∀ a, AgreeUnlessRefused chain chain' (f a) (g a)) :
    AgreeUnlessRefused chain chain' (x >>= f) (y >>= g) := by
  refine ⟨frames_bind hx.1 fun a => (hf a).1, ?_⟩
  intro s hs
  have hy := hx.2 s hs
  rcases hr : run x s with ⟨e | a, s'⟩ <;> rw [hr] at hy
  · rw [run_bind_error hr]
    exact hy.imp FailsForChain.error fun hy => run_bind_error hy
  · have hy := hy.resolve_left (not_failsForChain_ok a)
    rw [run_bind_ok hr, run_bind_ok hy]
    exact (hf a).2 s' ((hx.1.chain_eq hr).trans hs)

theorem agreeUnlessRefused_withScope {x y : Render α} (bindings : Fields Value)
    (h : AgreeUnlessRefused chain chain' x y) :
    AgreeUnlessRefused chain chain' (withScope bindings x) (withScope bindings y) := by
  refine ⟨frames_withScope bindings h.1, ?_⟩
  intro s hs
  refine (h.2 (s.push bindings) hs).imp_right fun hy => ?_
  exact congrArg (fun p : Except Error α × State => (p.1, p.2.pop)) hy

/-- Inside an inclusion both chains are longer by the same name. -/
theorem agreeUnlessRefused_withInclusion {x y : Render α} (name : String)
    (h : AgreeUnlessRefused (name :: chain) (name :: chain') x y) :
    AgreeUnlessRefused chain chain' (withInclusion name x) (withInclusion name y) := by
  refine ⟨frames_withInclusion name h.1, ?_⟩
  intro s hs
  have hs' : (s.withChain (name :: s.chain)).chain = name :: chain := congrArg (name :: ·) hs
  refine (h.2 _ hs').imp_right fun hy => ?_
  exact congrArg (fun p : Except Error α × State => (p.1, p.2.withChain p.2.chain.tail)) hy

/-- The text of a static block is kept by both runs or by none. -/
theorem agreeUnlessRefused_static (holder : Holder) (place : Place) {x y : Render String}
    (h : AgreeUnlessRefused chain chain' x y) :
    AgreeUnlessRefused chain chain' (static holder place x) (static holder place y) := by
  refine ⟨frames_static holder place x, ?_⟩
  intro s hs
  have hy := h.2 s.detach hs
  cases hres : s.resolved holder place with
  | some text =>
    have hres' := (State.resolved_withChain chain' s holder place).trans hres
    rw [run_static_resolved hres, run_static_resolved hres']
    exact .inr rfl
  | none =>
    have hres' := (State.resolved_withChain chain' s holder place).trans hres
    rcases hx : run x s.detach with ⟨e | text, s'⟩ <;> rw [hx] at hy
    · rw [run_static_error hres hx]
      refine hy.imp FailsForChain.error fun hy => ?_
      have hbody : run y (s.withChain chain').detach = (.error e, s'.withChain chain') := hy
      exact (run_static_error hres' hbody).trans rfl
    · have hy := hy.resolve_left (not_failsForChain_ok text)
      rw [run_static_ok hres hx, run_static_ok hres' hy]
      refine .inr ?_
      have hkeep : ((s.withChain chain').reattach (s'.withChain chain')).keep holder place text =
          ((s.reattach s').keep holder place text).withChain chain' :=
        State.keep_withChain chain' (s.reattach s') holder place text
      rw [hkeep, State.resolved_withChain]

/-- Rendering goes on in the same way up to the first refusal, where the inclusions do. -/
theorem congruence_agreeUnlessRefused (holder : Holder)
    {enter enter' : String → Attributes → Render String}
    (h : ∀ resource attributes, AgreeUnlessRefused chain chain' (enter resource attributes)
      (enter' resource attributes)) :
    Congruence (AgreeUnlessRefused chain chain') holder enter enter' where
  pure _ := Unchained.agree ⟨fun _ => ⟨rfl, rfl⟩, fun _ _ => rfl⟩
  lift _ := Unchained.agree ⟨fun _ => ⟨rfl, rfl⟩, fun _ _ => rfl⟩
  bind := agreeUnlessRefused_bind
  evaluate source := (unchained_evaluate source).agree
  withScope bindings h := agreeUnlessRefused_withScope bindings h
  static place h := agreeUnlessRefused_static holder place h
  enter := h

end

/-! ## More room -/

/-- The second chain leaves at least the room that the first one leaves: it is no longer, and it has
no other names. -/
structure Roomier (chain chain' : List String) : Prop where
  length_le : chain'.length ≤ chain.length
  subset : chain' ⊆ chain

theorem Roomier.cons {chain chain' : List String} (h : Roomier chain chain') (name : String) :
    Roomier (name :: chain) (name :: chain') :=
  ⟨Nat.succ_le_succ h.length_le, List.cons_subset_cons name h.subset⟩

section

variable {settings : Settings} {limit : Nat}

/-- What an inclusion does after its checks, if that holds of the blocks of templates. -/
theorem agreeUnlessRefused_includeTemplate {chain chain' : List String} {name : String}
    (h : ∀ resource attributes, AgreeUnlessRefused (name :: chain) (name :: chain')
      (including settings resource attributes)
      (including (settings.limited limit) resource attributes)) (attributes : Attributes) :
    AgreeUnlessRefused chain chain' (includeTemplate settings name attributes)
      (includeTemplate (settings.limited limit) name attributes) := by
  -- The limit is not among the options that templates are read with.
  have hload : load (settings.limited limit) name = load settings name := rfl
  rw [includeTemplate, includeTemplate, hload]
  refine agreeUnlessRefused_bind (unchained_load settings name).agree fun p => ?_
  refine agreeUnlessRefused_bind (unchained_evaluateBindings _).agree fun bindings => ?_
  have hR := congruence_agreeUnlessRefused (.stored p.1) h
  exact agreeUnlessRefused_withInclusion name
    (hR.withScope bindings (hR.renderBlocks p.2.blocks [] 0))

/-- With at least as much room an inclusion does the same, unless it comes to one that is refused
with less room. -/
theorem agreeUnlessRefused_including (hl : settings.config.maxInclusionDepth ≤ limit)
    {chain chain' : List String} (h : Roomier chain chain') (resource : String)
    (attributes : Attributes) :
    AgreeUnlessRefused chain chain' (including settings resource attributes)
      (including (settings.limited limit) resource attributes) := by
  -- An inclusion makes the first chain longer, until it must not grow.
  induction hn : settings.config.maxInclusionDepth - chain.length using Nat.strongRecOn
    generalizing chain chain' resource attributes with
  | _ n ih =>
    refine ⟨frames_including settings resource attributes, ?_⟩
    rintro s rfl
    by_cases hc : canonicalName settings resource ∈ s.chain
    · rw [run_including_of_mem hc]
      exact .inl ⟨_, rfl, trivial⟩
    by_cases hd : settings.config.maxInclusionDepth ≤ s.chain.length
    · rw [run_including_of_le hc hd]
      exact .inl ⟨_, rfl, trivial⟩
    have hd := Nat.lt_of_not_le hd
    have hc' : canonicalName (settings.limited limit) resource ∉ (s.withChain chain').chain :=
      fun hmem => hc (h.subset hmem)
    have hd' : (s.withChain chain').chain.length <
        (settings.limited limit).config.maxInclusionDepth :=
      Nat.lt_of_le_of_lt h.length_le (Nat.lt_of_lt_of_le hd hl)
    rw [run_including_of_lt hc hd, run_including_of_lt hc' hd']
    have hlt : settings.config.maxInclusionDepth -
        (canonicalName settings resource :: s.chain).length < n := by
      rw [List.length_cons]
      omega
    have hbody := agreeUnlessRefused_includeTemplate
      (fun resource attributes => ih _ hlt (h.cons _) resource attributes rfl) attributes
    exact hbody.2 s rfl

/-- With at least as much room, blocks are rendered in the same way up to the first inclusion that
is refused with less room. -/
theorem agreeUnlessRefused_renderBlocks (hl : settings.config.maxInclusionDepth ≤ limit)
    {chain chain' : List String} (h : Roomier chain chain') (holder : Holder) (blocks : List Block)
    (place : Place) (index : Nat) :
    AgreeUnlessRefused chain chain'
      (renderBlocks (including settings) holder place index blocks)
      (renderBlocks (including (settings.limited limit)) holder place index blocks) :=
  (congruence_agreeUnlessRefused holder (agreeUnlessRefused_including hl h)).renderBlocks
    blocks place index

/-- More room for inclusions turns errors of the chain into other results, and it changes nothing
else. The second rendering begins with the same context and the same that is kept, with a limit that
is no lower, and with a chain that is no longer and has no other names. A text of the first one is
the text of the second one, and so is what they keep. A text of the second one is the text of the
first one, or the first one has an error of the chain. Where the second one fails, so does the first
one, for the chain or with the same error. -/
theorem renderBlocks_with_room (settings : Settings) (limit : Nat)
    (hl : settings.config.maxInclusionDepth ≤ limit) (s : State) (chain : List String)
    (hlength : chain.length ≤ s.chain.length) (hsubset : ∀ name ∈ chain, name ∈ s.chain)
    (holder : Holder) (blocks : List Block) :
    let first := run (renderBlocks (including settings) holder [] 0 blocks) s
    let second := run (renderBlocks (including (settings.limited limit)) holder [] 0 blocks)
      { s with chain := chain }
    (∀ text, first.1 = .ok text → second.1 = .ok text ∧ second.2.kept = first.2.kept) ∧
    (∀ text, second.1 = .ok text →
      first.1 = .ok text ∨ ∃ e, first.1 = .error e ∧ e.OfChain) ∧
    ∀ e, second.1 = .error e →
      first.1 = .error e ∨ ∃ e', first.1 = .error e' ∧ e'.OfChain := by
  intro first second
  have h : FailsForChain first.1 ∨ second = (first.1, first.2.withChain chain) :=
    (agreeUnlessRefused_renderBlocks hl ⟨hlength, hsubset⟩ holder blocks [] 0).2 s rfl
  rcases h with h | h
  · refine ⟨?_, fun _ _ => .inr h, fun _ _ => .inr h⟩
    intro text ht
    rw [ht] at h
    exact absurd h (not_failsForChain_ok text)
  · rw [h]
    exact ⟨fun text ht => ⟨ht, rfl⟩, fun text ht => .inl ht, fun e he => .inl he⟩

end

/-- The stored template `a` includes `b`. -/
def bInsideA : Store where
  templates := [("a", ⟨[.inclusion ⟨1, 1, 0⟩ "b" []], []⟩), ("b", ⟨[.text ⟨1, 1, 0⟩ "B"], []⟩)]

/-- Below `x` there is room for `b`, but not for `b` inside of `a`; with a limit of three and
without `x` there is room for both. -/
theorem bInsideA_with_room :
    let s : State := ⟨{}, ["x"], [], bInsideA, []⟩
    let first name := run (renderBlocks (including stored) .own [] 0
      [.inclusion ⟨1, 1, 0⟩ name []]) s
    let second name := run (renderBlocks (including (stored.limited 3)) .own [] 0
      [.inclusion ⟨1, 1, 0⟩ name []]) { s with chain := [] }
    ((first "b").1 = .ok "B" ∧ (second "b").1 = .ok "B") ∧
      ∃ e, (first "a").1 = .error e ∧ e.OfChain ∧ (second "a").1 = .ok "B" := by
  intro s first second
  have hb : (first "b").1 = .ok "B" := eq_ok_of_toOption (by decide +kernel)
  have ha : (second "a").1 = .ok "B" := eq_ok_of_toOption (by decide +kernel)
  have hroom := fun name => renderBlocks_with_room stored 3 (Nat.le_succ 2) s [] (Nat.zero_le 1)
    nofun .own [.inclusion ⟨1, 1, 0⟩ name []]
  refine ⟨⟨hb, ((hroom "b").1 "B" hb).1⟩, ?_⟩
  rcases (hroom "a").2.1 "B" ha with h | ⟨e, he, hc⟩
  · have hnone : (first "a").1.toOption = none := by decide +kernel
    rw [h] at hnone
    cases hnone
  · exact ⟨e, he, hc, ha⟩

end Stencil.Render
