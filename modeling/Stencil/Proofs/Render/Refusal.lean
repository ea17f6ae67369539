import Stencil.Proofs.Render.Known
import Stencil.Proofs.Render.Underway
import Stencil.Resource.Directory

/-!
# Refused inclusions

An error of the chain has one origin: an inclusion that is refused for the chain that it stands in
(`Finishes.refusal`). Whatever else goes wrong has other errors. Those of expressions quote the
expression (`Error.Quotes`), and those of loaders say why there is no text (`Loader.Answers`).
-/

namespace Stencil

open Markup (Block Attributes)

/-! ## Errors of expressions -/

/-- The error is one of an expression, with its text. -/
inductive Error.Quotes (source : String) : Error → Prop
  | unresolved (name : String) : Quotes source (.unresolved name source)
  | typeMismatch (operator : String) (operands : Operands) :
      Quotes source (.typeMismatch operator operands source)
  | invalidExpression (e : SyntaxError) : Quotes source (.invalidExpression source e)
  | arithmetic (fault : ArithmeticFault) : Quotes source (.arithmetic source fault)

theorem Error.Quotes.not_ofChain {source : String} {e : Error} (h : e.Quotes source) :
    ¬ e.OfChain := by
  cases h <;> exact id

section

variable {source symbol : String} {c : Context} {e : Error}

theorem Context.follow_quotes {names : List String} {seen : List String} {v : Value}
    (h : follow source seen v names = .error e) : e.Quotes source := by
  induction names generalizing seen v with
  | nil => cases v <;> cases h
  | cons name names ih =>
    cases v with
    | object fields =>
      simp only [follow] at h
      split at h
      · exact ih h
      · cases h
        exact .unresolved _
    | null | bool | int | float | str | array =>
      cases h
      exact .typeMismatch _ _

theorem Context.resolve_quotes {segments : List String}
    (h : c.resolve source segments = .error e) : e.Quotes source := by
  cases segments with
  | nil =>
    cases h
    exact .unresolved _
  | cons name names =>
    simp only [resolve] at h
    split at h
    · exact follow_quotes h
    · cases h
      exact .unresolved _

namespace Expr

theorem computed_quotes {operands : Operands} {r : Except OperatorFault Value}
    (h : computed source symbol operands r = .error e) : e.Quotes source := by
  cases r with
  | ok value => cases h
  | error fault =>
    cases h
    cases fault with
    | mismatch => exact .typeMismatch _ _
    | arithmetic fault => exact .arithmetic _

theorem truth_quotes {op : BinaryOp} {o : Operand} (h : truth source op o = .error e) :
    e.Quotes source := by
  unfold truth at h
  split at h
  · cases h
  · cases h
    exact .typeMismatch _ _

mutual

/-- The error of an expression quotes it, however deep it comes from. -/
theorem eval_quotes (x : Expr) {e : Error} (h : x.eval source c = .error e) : e.Quotes source := by
  match x with
  | literal value => cases h
  | path segments =>
    simp only [eval] at h
    split at h
    · cases h
    · rename_i hr
      cases h
      exact Context.resolve_quotes hr
  | array items =>
    simp only [eval] at h
    split at h
    · cases h
    · rename_i hr
      cases h
      exact evalItems_quotes items hr
  | unary op x =>
    simp only [eval] at h
    split at h
    · exact computed_quotes h
    · rename_i hr
      cases h
      exact eval_quotes x hr
  | binary op l r =>
    simp only [eval] at h
    split at h
    · rename_i hl
      cases h
      exact eval_quotes l hl
    split at h
    · split at h
      · rename_i ht
        cases h
        exact truth_quotes ht
      split at h
      · cases h
      split at h
      · rename_i hr
        cases h
        exact eval_quotes r hr
      · obtain ht := Markup.map_eq_error_iff.1 h
        exact truth_quotes ht
    · split at h
      · rename_i hr
        cases h
        exact eval_quotes r hr
      · exact computed_quotes h

theorem evalItems_quotes (xs : List Expr) {e : Error} (h : evalItems source c xs = .error e) :
    e.Quotes source := by
  match xs with
  | [] => cases h
  | x :: xs =>
    simp only [evalItems] at h
    split at h
    · rename_i hx
      cases h
      exact eval_quotes x hx
    · exact evalItems_quotes xs (Markup.map_eq_error_iff.1 h)

end

end Expr

theorem Expression.parse_quotes (h : Expression.parse source = .error e) : e.Quotes source := by
  unfold parse at h
  split at h
  · cases h
  · cases h
    exact .invalidExpression _

/-- A kept expression need not have the text that it is kept under. -/
theorem Expression.Cache.evaluate_quotes {cache cache' : Cache} {r : Except Error Operand}
    (h : cache.evaluate source c = (r, cache')) (hr : r = .error e) :
    ∃ quoted, e.Quotes quoted := by
  rcases evaluate_inv h with ⟨x, -, rfl⟩ | ⟨-, e', hp, rfl⟩
  · exact ⟨x.source, Expr.eval_quotes x.root hr⟩
  · cases hr
    exact ⟨source, parse_quotes hp⟩

end

/-! ## Errors of loaders -/

/-- The loader answers with a text or says why there is none. That is no matter of inclusions. -/
def Loader.Answers (loader : Loader) : Prop :=
  ∀ name e, loader.load name = .error e → ¬ e.OfChain

theorem Shelf.answers (shelf : Shelf) : shelf.loader.Answers := by
  intro name e h
  unfold Loader.load loader at h
  dsimp only at h
  split at h
  · cases h
  · cases h
    exact id

theorem Directory.answers (d : Directory) : d.loader.Answers := by
  intro name e h
  change d.read (d.canonicalName name) = .error e at h
  unfold read at h
  repeat' split at h
  all_goals
    cases h
    try exact id

/-- So does the loader of the settings, if there is one. -/
def Settings.Answers (settings : Settings) : Prop :=
  ∀ loader, settings.loader = some loader → loader.Answers

namespace Render

variable {settings : Settings} {s s' : State} {e : Error}

/-! ## Steps that have other errors -/

theorem evaluate_not_ofChain {source : String} (h : run (evaluate source) s = (.error e, s')) :
    ¬ e.OfChain := by
  obtain ⟨operand, cache, he, hr, -⟩ := run_evaluate_inv h
  obtain ⟨quoted, hq⟩ := Expression.Cache.evaluate_quotes he (Markup.map_eq_error_iff.1 hr.symm)
  exact hq.not_ofChain

theorem evaluateBindings_not_ofChain {bindings : List (String × String)}
    (h : run (evaluateBindings bindings) s = (.error e, s')) : ¬ e.OfChain := by
  induction bindings generalizing s with
  | nil => cases h
  | cons binding bindings ih =>
    rcases evaluateBindings_cons_cases h with
      ⟨e', hv, hr⟩ | ⟨value, s₁, -, ⟨e', hb, hr⟩ | ⟨values, -, hr⟩⟩
    · cases hr
      exact evaluate_not_ofChain hv
    · cases hr
      exact ih hb
    · cases hr

theorem elements_not_ofChain {source : String} {value : Value}
    (h : elements source value = .error e) : ¬ e.OfChain := by
  unfold elements at h
  split at h <;> cases h
  exact id

theorem truth_not_ofChain {source : String} {value : Value}
    (h : truth source value = .error e) : ¬ e.OfChain := by
  unfold truth at h
  split at h <;> cases h
  exact id

theorem load_not_ofChain (ha : settings.Answers) {name : String}
    (h : run (load settings name) s = (.error e, s')) : ¬ e.OfChain := by
  rcases run_load_inv h with ⟨-, hr, -⟩ | ⟨loader, store, hloader, hl, -⟩
  · cases hr
    exact id
  · rcases Store.load_cases hl with ⟨t, -, hr, -⟩ | ⟨-, ⟨t, -, hr, -⟩ | ⟨e', he, hr, -⟩⟩
    · cases hr
    · cases hr
    · cases hr
      cases ht : loader.load (loader.canonicalName name) with
      | error e' =>
        rw [ht] at he
        cases he
        exact ha loader hloader _ _ ht
      | ok text =>
        rw [ht] at he
        change Store.readTemplate _ text = .error e at he
        unfold Store.readTemplate at he
        split at he <;> cases he
        exact id

/-! ## The origin of errors of the chain -/

/-- In this chain, the inclusion of a template is refused with this error. -/
inductive Refuses (settings : Settings) (chain : List String) (name : String) : Error → Prop
  | cycle (h : name ∈ chain) :
      Refuses settings chain name (.cyclicInclusion name (name :: chain).reverse)
  | depth (h : name ∉ chain) (hd : settings.config.maxInclusionDepth ≤ chain.length) :
      Refuses settings chain name (.inclusionDepthExceeded settings.config.maxInclusionDepth)

/-- The point comes to an inclusion that is refused with this error, and keeps nothing after it. -/
def ComesToRefusal (settings : Settings) (p : Point) (e : Error) (kept : Kept) : Prop :=
  ∃ holder place l resource attributes s,
    Passes settings p ⟨holder, .block place (.inclusion l resource attributes), s⟩ ∧
      Refuses settings s.chain (canonicalName settings resource) e ∧ s.kept = kept

theorem ComesToRefusal.leads {p q : Point} {kept : Kept} (h : ComesToRefusal settings q e kept)
    (hpq : Leads settings p q) : ComesToRefusal settings p e kept := by
  obtain ⟨holder, place, l, resource, attributes, s, hp, hr, hk⟩ := h
  exact ⟨holder, place, l, resource, attributes, s, hp.head hpq, hr, hk⟩

/-- A point that has an error of the chain comes to an inclusion that is refused with it. -/
theorem Finishes.refusal {p : Point} {r : Except Error String} (h : Finishes settings p r s')
    (ha : settings.Answers) (hr : r = .error e) (he : e.OfChain) :
    ComesToRefusal settings p e s'.kept := by
  induction h generalizing e with
  | @inline holder place l expression s s' r hv =>
    have hr := Markup.map_eq_error_iff.1 hr
    subst hr
    exact absurd he (evaluate_not_ofChain hv)
  | loopError hv | condError hv =>
    cases hr
    exact absurd he (evaluate_not_ofChain hv)
  | loopType _ hi =>
    cases hr
    exact absurd he (elements_not_ofChain hi)
  | condType _ ht =>
    cases hr
    exact absurd he (truth_not_ofChain ht)
  | loop hv hi _ ih => exact (ih hr he).leads (.loop hv hi)
  | condTrue hv ht _ ih => exact (ih hr he).leads (.cond hv ht)
  | staticError hs _ ih => exact (ih hr he).leads (.static hs)
  | @inclusionCycle holder place l resource attributes s hc =>
    cases hr
    exact ⟨holder, place, l, resource, attributes, s, .refl, .cycle hc, rfl⟩
  | @inclusionDepth holder place l resource attributes s hc hd =>
    cases hr
    exact ⟨holder, place, l, resource, attributes, s, .refl, .depth hc hd, rfl⟩
  | inclusionLoad _ _ hl =>
    cases hr
    exact absurd he (load_not_ofChain ha hl)
  | inclusionBindings _ _ _ hb =>
    cases hr
    exact absurd he (evaluateBindings_not_ofChain hb)
  | inclusion hc hd hl hb _ ih => exact (ih hr he).leads (.inclusion hc hd hl hb)
  | firstError _ ih => exact (ih hr he).leads .first
  | next h _ _ iht => exact (iht (Markup.map_eq_error_iff.1 hr) he).leads (.next h.run_eq)
  | itemError _ ih => exact (ih hr he).leads .item
  | items h _ _ iht => exact (iht (Markup.map_eq_error_iff.1 hr) he).leads (.items h.run_eq)
  | bindStatic _ ih => exact (ih (Markup.map_eq_error_iff.1 hr) he).leads .bindStatic
  | bindLoop _ ih => exact (ih hr he).leads .bindLoop
  | bindCond _ ih => exact (ih hr he).leads .bindCond
  | bindFirstError _ ih => exact (ih hr he).leads .bindFirst
  | bindNext h _ _ iht => exact (iht hr he).leads (.bindNext h.run_eq)
  | text | condFalse | staticResolved | static | nil | itemsNil | bindText | bindInline
  | bindInclusion | bindNil => cases hr

end Render

end Stencil
