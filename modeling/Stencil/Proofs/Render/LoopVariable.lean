import Stencil.Proofs.Expr.Names
import Stencil.Proofs.Markup.Locality
import Stencil.Proofs.Render.Points
import Stencil.Proofs.Render.Sound

/-!
# Loop variables

The name of a loop variable is checked when the template is read, and looked up when the body of the
loop is rendered. In the body it stands for the current element (`Point.Inside.lookup_eq`), so that
an inline expression that is read as the path to it renders that element. The names for which this
holds are the identifiers of expressions; a template may also name a loop variable by a keyword or
with letters that are not ASCII (`loopVariable_rendered`).
-/

namespace Stencil

/-! ## The names of parsed loops -/

namespace Markup

theorem isIdentifier_of_readHeader {k : Construct} {t : Tag} {place : Location}
    {variableName collection : String}
    (h : readHeader k t place = .ok (.loop variableName collection)) :
    isIdentifier variableName.toList = true := by
  unfold readHeader at h
  split at h
  · split at h
    · cases h
    · cases h
    · dsimp only at h
      split at h
      · rename_i hident
        cases h
        rwa [String.toList_ofList]
      · cases h
  · obtain ⟨c, -, hc⟩ := map_eq_ok_iff.1 h
    cases hc
  · cases h

/-- A template with a loop whose variable is no identifier is refused. -/
theorem isIdentifier_of_parse {o : ParseOptions} {source : String} {blocks : List Block} {d : Nat}
    {l : Location} {variableName collection : String} {attributes : Attributes} {raw : String}
    {body : List Block} (h : parse o source = .ok blocks)
    (hn : Nested blocks d (.loop l variableName collection attributes raw body)) :
    isIdentifier variableName.toList = true := by
  obtain ⟨k, t, header, outer, _, _, hh, -, -, -, hblock⟩ :=
    (parses_of_parseBlocks h).container_of_nested (standsAt_all source.toList) hn rfl rfl
  cases header with
  | loop name collection' =>
    cases hblock
    exact isIdentifier_of_readHeader hh
  | cond => cases hblock
  | static => cases hblock

end Markup

namespace Render

open Markup (Block Attributes Nested)

/-! ## The kept expressions stay valid -/

/-- A step keeps expressions only as they are read. -/
def KeepsValid {α : Type} (x : Render α) : Prop :=
  ∀ s, s.expressions.Valid → (run x s).2.expressions.Valid

theorem KeepsValid.valid {α : Type} {x : Render α} (hx : KeepsValid x) {s s' : State}
    {r : Except Error α} (h : run x s = (r, s')) (hs : s.expressions.Valid) :
    s'.expressions.Valid := by
  have hkeeps := hx s hs
  rwa [h] at hkeeps

theorem keepsValid_bind {α β : Type} {x : Render α} {f : α → Render β} (hx : KeepsValid x)
    (hf : ∀ a, KeepsValid (f a)) : KeepsValid (x >>= f) := by
  intro s h
  have hs := hx s h
  rw [run_bind]
  rcases hr : run x s with ⟨e | a, s'⟩
  · rwa [hr] at hs
  · rw [hr] at hs
    exact hf a s' hs

theorem keepsValid_evaluate (source : String) : KeepsValid (evaluate source) := by
  intro s h
  obtain ⟨cache, hv, he⟩ := h.evaluate source s.context
  simpa only [run, evaluate, he] using hv

theorem keepsValid_evaluateBindings (bindings : List (String × String)) :
    KeepsValid (evaluateBindings bindings) := by
  induction bindings with
  | nil => exact fun _ h => h
  | cons binding bindings ih =>
    refine keepsValid_bind (keepsValid_evaluate binding.2) fun value =>
      keepsValid_bind ih fun values => ?_
    exact fun _ h => h

theorem keepsValid_static {x : Render String} (hx : KeepsValid x) (holder : Holder)
    (place : Place) : KeepsValid (static holder place x) := by
  intro s h
  have hd : (run (detached x) s).2.expressions.Valid := hx s.detach h
  rw [run, static]
  split
  · exact h
  · split
    · rename_i text s' hs
      rw [hs] at hd
      cases holder <;> exact hd
    · rename_i e s' hs
      rwa [hs] at hd

theorem keepsValid_load (settings : Settings) (name : String) :
    KeepsValid (load settings name) := by
  intro s h
  rw [run, load]
  split <;> exact h

theorem keepsValid_checkCycle (name : String) : KeepsValid (checkCycle name) := by
  intro s h
  rw [run, checkCycle]
  split <;> exact h

theorem congruence_keepsValid (holder : Holder) {enter : String → Attributes → Render String}
    (h : ∀ resource attributes, KeepsValid (enter resource attributes)) :
    Congruence (fun x _ => KeepsValid x) holder enter enter where
  pure _ := fun _ h => h
  lift _ := fun _ h => h
  bind := keepsValid_bind
  evaluate := keepsValid_evaluate
  withScope bindings hx := fun s hs => hx (s.push bindings) hs
  static place hx := keepsValid_static hx holder place
  enter := h

theorem keepsValid_enter (settings : Settings) (remaining : Nat) (resource : String)
    (attributes : Attributes) : KeepsValid (enter settings remaining resource attributes) := by
  induction remaining generalizing resource attributes with
  | zero => exact keepsValid_bind (keepsValid_checkCycle _) fun _ => fun _ h => h
  | succ remaining ih =>
    refine keepsValid_bind (keepsValid_checkCycle _) fun _ =>
      keepsValid_bind (keepsValid_load settings _) fun p =>
        keepsValid_bind (keepsValid_evaluateBindings _) fun bindings => ?_
    intro s hs
    exact (congruence_keepsValid (.stored p.1) ih).renderBlocks p.2.blocks [] 0 _ hs

theorem keepsValid_including (settings : Settings) (resource : String) (attributes : Attributes) :
    KeepsValid (including settings resource attributes) :=
  fun s => keepsValid_enter settings _ resource attributes s

theorem keepsValid_step (settings : Settings) (holder : Holder) (task : Task) :
    KeepsValid (task.step settings holder) :=
  Point.step_of_congruence (R := fun x _ => KeepsValid x)
    (fun holder => congruence_keepsValid holder (keepsValid_including settings)) holder task

/-! ## Points in the body of a loop -/

/-- The task does not leave the body that it stands in, and does not bind the name anew. -/
def Task.StaysUnder (name : String) : Task → Prop
  | .block _ (.static ..) => False
  | .block _ (.inclusion ..) => False
  | .block .. => True
  | .blocks .. => True
  | .loop _ variableName _ _ => variableName ≠ name
  | .bindBlock .. => False
  | .bindBlocks .. => False

/-- The run of the first point comes to the second one in the same body, outside of static blocks,
of inclusions and of loops that bind the name anew. -/
def Point.Inside (settings : Settings) (name : String) : Point → Point → Prop :=
  Relation.ReflTransGen fun p q => p.task.StaysUnder name ∧ Leads settings p q

variable {settings : Settings} {name : String} {p q : Point}

theorem Leads.valid (h : Leads settings p q) (hp : p.state.expressions.Valid) :
    q.state.expressions.Valid := by
  cases h with
  | loop hv => exact (keepsValid_evaluate _).valid hv hp
  | item => exact hp
  | items h =>
    have hvalid := (keepsValid_step settings _ _).valid h hp
    exact hvalid
  | cond hv => exact (keepsValid_evaluate _).valid hv hp
  | static => exact hp
  | inclusion _ _ hl hb =>
    have hload := (keepsValid_load settings _).valid hl hp
    have hbindings := (keepsValid_evaluateBindings _).valid hb hload
    exact hbindings
  | first => exact hp
  | next h => exact (keepsValid_step settings _ _).valid h hp
  | bindStatic => exact hp
  | bindLoop => exact hp
  | bindCond => exact hp
  | bindFirst => exact hp
  | bindNext h => exact (keepsValid_step settings _ _).valid h hp

/-- A step that stays in a body leaves the value of the name as it is. -/
theorem Leads.lookup_eq (h : Leads settings p q) (hp : p.task.StaysUnder name) :
    q.state.context.lookup name = p.state.context.lookup name := by
  cases h with
  | loop hv => rw [(frames_evaluate _).context_eq hv]
  | @item _ _ variableName _ item =>
    show Context.lookup name (Context.push [(variableName, item)] _) = _
    rw [Context.lookup_push, Fields.get?, if_neg hp, Fields.get?_nil, Option.none_or]
  | items h => exact congrArg (fun c => Context.lookup name c.pop) (Point.context_eq h)
  | cond hv => rw [(frames_evaluate _).context_eq hv]
  | static => exact hp.elim
  | inclusion => exact hp.elim
  | first => rfl
  | next h => rw [Point.context_eq h]
  | bindStatic => exact hp.elim
  | bindLoop => exact hp.elim
  | bindCond => exact hp.elim
  | bindFirst => exact hp.elim
  | bindNext => exact hp.elim

/-- In a body the name keeps its value, and expressions are kept only as they are read. -/
theorem Point.Inside.lookup_eq (h : Point.Inside settings name p q)
    (hp : p.state.expressions.Valid) :
    q.state.context.lookup name = p.state.context.lookup name ∧ q.state.expressions.Valid := by
  induction h with
  | refl => exact ⟨rfl, hp⟩
  | tail _ hstep ih => exact ⟨(hstep.2.lookup_eq hstep.1).trans ih.1, hstep.2.valid ih.2⟩

/-- An inline expression that is read as the path to a name renders the value of the name. -/
theorem Point.run_inline_name (hparse : Expression.parse name = .ok ⟨name, .path [name]⟩)
    {holder : Holder} {place : Place} {l : Markup.Location} {s : State} {value : Value}
    (hs : s.expressions.Valid) (hv : s.context.lookup name = some value) :
    (Point.run settings ⟨holder, .block place (.inline l name), s⟩).1 = .ok value.display := by
  obtain ⟨cache, -, he⟩ := hs.evaluate name s.context
  have hvalue : (Expression.evaluateText name s.context).map (·.value) = .ok value := by
    simp only [Expression.evaluateText, hparse, Expression.evaluate, Expr.eval, Context.resolve,
      hv, Context.follow]
    rfl
  rw [Point.run_inline]
  have hrun : (Render.run (evaluate name) s).1 = .ok value := by
    rw [Render.run, evaluate, he]
    exact hvalue
  rw [hrun]
  rfl

/-- Wherever a rendering comes to, expressions are kept only as they are read. -/
theorem Passes.valid (h : Passes settings p q) (hp : p.state.expressions.Valid) :
    q.state.expressions.Valid := by
  induction h with
  | refl => exact hp
  | tail _ hstep ih => exact hstep.valid ih

/-! ## Rendering a loop variable -/

/-- The loop variable of a parsed template is a name that can be looked up, a keyword of
expressions, or a name that they cannot hold. One that can be looked up renders the current element
wherever the body uses it for itself, in every rendering that comes to the loop. -/
theorem loopVariable_rendered {o : Markup.ParseOptions} {source : String} {blocks : List Block}
    {d : Nat} {l : Markup.Location} {variableName collection : String} {attributes : Attributes}
    {raw : String} {body : List Block} (h : Markup.parse o source = .ok blocks)
    (hn : Nested blocks d (.loop l variableName collection attributes raw body)) :
    (Expression.parse variableName = .ok ⟨variableName, .path [variableName]⟩ ↔
        Expr.IsIdentifier variableName) ∧
      (¬ Expr.IsIdentifier variableName →
        (variableName ∈ ["true", "false", "null"] ∧
          ∃ value, Expression.parse variableName = .ok ⟨variableName, .literal value⟩) ∨
        ∃ word c rest, variableName.toList = word ++ c :: rest ∧ (∀ e ∈ word, e.toNat < 128) ∧
          128 ≤ c.toNat ∧ Expression.parse variableName = .error (.invalidExpression variableName
            ⟨Text.utf8Length word, .unexpectedCharacter c⟩)) ∧
      (Expr.IsIdentifier variableName →
        ∀ (settings : Settings) (start : Point) (holder : Holder) (place place' : Place)
          (item : Value) (items : List Value) (s : State) (q : Point) (l' : Markup.Location),
          start.state.expressions.Valid →
          Passes settings start ⟨holder, .loop place variableName body (item :: items), s⟩ →
          Point.Inside settings variableName
            ⟨holder, .blocks place 0 body, s.push [(variableName, item)]⟩ q →
          q.task = .block place' (.inline l' variableName) →
          (q.run settings).1 = .ok item.display) := by
  have hname := Expr.parse_name (Markup.isIdentifier_of_parse h hn)
  refine ⟨⟨fun hpath => ?_, Expr.parse_identifier⟩, fun hnot => ?_, ?_⟩
  · rcases hname with ⟨hident, -⟩ | ⟨-, value, hliteral⟩ | ⟨_, _, _, -, -, -, herror⟩
    · exact hident
    · cases hpath.symm.trans hliteral
    · cases hpath.symm.trans herror
  · rcases hname with ⟨hident, -⟩ | hkeyword | hrefused
    · exact absurd hident hnot
    · exact .inl hkeyword
    · exact .inr hrefused
  · intro hident settings start holder place place' item items s q l' hvalid hpasses hinside htask
    have hs : s.expressions.Valid := hpasses.valid hvalid
    obtain ⟨hlookup, hq⟩ := hinside.lookup_eq hs
    have hitem : q.state.context.lookup variableName = some item := by
      rw [hlookup]
      show Context.lookup variableName (Context.push [(variableName, item)] s.context) = _
      rw [Context.lookup_push, Fields.get?, if_pos rfl, Option.some_or]
    obtain ⟨holder', task, state⟩ := q
    cases htask
    exact Point.run_inline_name (Expr.parse_identifier hident) hq hitem

def greetings : String := "<for var:'x', in:'names'>$\x7bx\x7d</for>"

def greetingsBlock : Block :=
  .loop Markup.Location.start "x" "names" [("in", "names"), ("var", "x")] "$\x7bx\x7d"
    [.inline ⟨1, 26, 25⟩ "x"]

theorem greetings_rendered :
    Markup.parse {} greetings = .ok [greetingsBlock] ∧ Nested [greetingsBlock] 0 greetingsBlock ∧
      Expression.parse "x" = .ok ⟨"x", .path ["x"]⟩ ∧
      (Point.run {} ⟨.own, .block [0, 0] (.inline ⟨1, 26, 25⟩ "x"),
        State.push [("x", .str "Ada")] { context := .empty }⟩).1 = .ok "Ada" := by
  have hparse : Markup.parse {} greetings = .ok [greetingsBlock] :=
    eq_ok_of_toOption (by decide +kernel)
  have hnested : Nested [greetingsBlock] 0 greetingsBlock := .here List.mem_cons_self
  have hident : Expr.IsIdentifier "x" := ⟨⟨'x', [], rfl, rfl, nofun⟩, by decide⟩
  obtain ⟨hname, -, hrendered⟩ := loopVariable_rendered hparse hnested
  refine ⟨hparse, hnested, hname.2 hident, ?_⟩
  exact hrendered hident {} _ .own [0] [0, 0] (.str "Ada") [] { context := .empty } _ _
    Expression.Cache.valid_nil .refl (.single ⟨trivial, .first⟩) rfl

/-- A loop variable may have a name that no expression can hold, or one that is a literal. -/
theorem loopVariable_hidden :
    Markup.parse {} "<for var:'é', in:'[7]'></for>" =
        .ok [.loop Markup.Location.start "é" "[7]" [("in", "[7]"), ("var", "é")] "" []] ∧
      Expression.parse "é" = .error (.invalidExpression "é" ⟨0, .unexpectedCharacter 'é'⟩) ∧
      Markup.parse {} "<for var:'null', in:'[7]'></for>" =
        .ok [.loop Markup.Location.start "null" "[7]" [("in", "[7]"), ("var", "null")] "" []] ∧
      ∃ value, Expression.parse "null" = .ok ⟨"null", .literal value⟩ :=
  have hrefused := Expr.parse_of_le (by decide) (show _ = [] ++ 'é' :: [] from rfl)
    nofun (by decide)
  ⟨eq_ok_of_toOption (by decide +kernel), hrefused, eq_ok_of_toOption (by decide +kernel),
    Expr.parse_keyword (by decide)⟩

end Render

end Stencil
