import Stencil.Proofs.Render.Meaning

/-!
# What renderings keep

`Sound` says of a store and of parsed expressions that they agree with what would be read anew, and
that each kept text is one that the body of its static block yields. Every run keeps this, and it
only ever adds to what is kept (`Point.outcome`). A text that the run of a stored template returns
is one that its task yields.
-/

namespace Stencil

open Markup (Block Attributes)

/-! ## Kept expressions -/

/-- The expressions are those that their texts stand for. -/
def Expression.Cache.Valid (cache : Expression.Cache) : Prop :=
  ∀ source e, Fields.get? source cache = some e → Expression.parse source = .ok e

theorem Expression.Cache.valid_nil : Valid [] := nofun

/-- Evaluation through the kept expressions gives what evaluation anew gives. -/
theorem Expression.Cache.Valid.evaluate {cache : Expression.Cache} (h : cache.Valid)
    (source : String) (c : Context) :
    ∃ cache', cache'.Valid ∧ cache.evaluate source c = (evaluateText source c, cache') := by
  rw [Cache.evaluate, Cache.get, evaluateText]
  cases hc : Fields.get? source cache with
  | some e => exact ⟨cache, h, by rw [h source e hc]⟩
  | none =>
    cases hp : Expression.parse source with
    | error e => exact ⟨cache, h, rfl⟩
    | ok e =>
      refine ⟨Fields.insert source e cache, ?_, rfl⟩
      intro other e' he'
      rw [Fields.get?_insert] at he'
      split at he'
      · rename_i hs
        cases he'
        exact hs ▸ hp
      · exact h other e' he'

/-! ## Stores -/

namespace Store

variable {s s' : Store}

/-- A later store: no template and no text of a static block is missing. -/
structure Le (s s' : Store) : Prop where
  templates : ∀ key, (Fields.get? key s.templates).isSome → (Fields.get? key s'.templates).isSome
  resolved : ∀ key place text, s.resolved key place = some text →
    s'.resolved key place = some text

theorem Le.refl (s : Store) : Le s s := ⟨fun _ h => h, fun _ _ _ h => h⟩

theorem Le.trans {s₁ s₂ s₃ : Store} (h : Le s₁ s₂) (h' : Le s₂ s₃) : Le s₁ s₃ :=
  ⟨fun key hk => h'.templates key (h.templates key hk),
    fun key place text hk => h'.resolved key place text (h.resolved key place text hk)⟩

/-- A template that was just read has no texts of static blocks. -/
theorem readTemplate_inv {o : Markup.ParseOptions} {text : String} {t : Template}
    (h : readTemplate o text = .ok t) : t = ⟨t.blocks, []⟩ := by
  unfold readTemplate at h
  split at h
  · cases h
    rfl
  · cases h

/-- A template that is new has no texts of static blocks. -/
theorem resolved_insert {key : String} (h : Fields.get? key s.templates = none)
    (blocks : List Block) (requests : List String) :
    (Store.mk (Fields.insert key ⟨blocks, []⟩ s.templates) requests).resolved = s.resolved := by
  funext other p
  simp only [resolved, Fields.get?_insert]
  split
  · rename_i he
    subst he
    rw [h]
    rfl
  · rfl

theorem resolved_keep {key : String} {t : Template} (h : Fields.get? key s.templates = some t)
    (place : Place) (text other : String) (p : Place) :
    (s.keep key place text).resolved other p =
      (s.resolved other p).or (if key = other ∧ place = p then some text else none) := by
  unfold keep
  rw [h]
  simp only [resolved, Fields.get?_insert]
  by_cases hk : key = other
  · subst hk
    simp only [if_true, h, Option.bind_some, Template.resolved, Cells.get?_keep, true_and]
  · simp [hk]

/-- A text is an old one, or the new one if there was none before. -/
theorem resolved_keep_inv {key : String} {t : Template}
    (h : Fields.get? key s.templates = some t) {place : Place} {text other : String} {p : Place}
    {v : String} (hv : (s.keep key place text).resolved other p = some v) :
    s.resolved other p = some v ∨
      s.resolved other p = none ∧ other = key ∧ p = place ∧ v = text := by
  rw [resolved_keep h] at hv
  rcases Option.or_eq_some_iff.1 hv with hold | ⟨hnone, hnew⟩
  · exact .inl hold
  · rw [Option.ite_none_right_eq_some] at hnew
    obtain ⟨⟨rfl, rfl⟩, hnew⟩ := hnew
    exact .inr ⟨hnone, rfl, rfl, (Option.some.inj hnew).symm⟩

theorem resolved_keep_self {key : String} (h : (Fields.get? key s.templates).isSome)
    (place : Place) (text : String) :
    ∃ known, (s.keep key place text).resolved key place = some known := by
  obtain ⟨t, ht⟩ := Option.isSome_iff_exists.1 h
  rw [resolved_keep ht]
  cases s.resolved key place with
  | some known => exact ⟨known, rfl⟩
  | none => exact ⟨text, by simp⟩

theorem get?_keep_templates (key : String) (place : Place) (text other : String) :
    (Fields.get? other (s.keep key place text).templates).map (·.blocks) =
      (Fields.get? other s.templates).map (·.blocks) := by
  unfold keep
  split
  · rename_i t h
    simp only [Fields.get?_insert]
    split
    · rename_i hk
      rw [← hk, h]
      rfl
    · rfl
  · rfl

theorem keep_of_none {key : String} (h : Fields.get? key s.templates = none) (place : Place)
    (text : String) : s.keep key place text = s := by
  unfold keep
  rw [h]

theorem le_keep (s : Store) (key : String) (place : Place) (text : String) :
    Le s (s.keep key place text) := by
  cases h : Fields.get? key s.templates with
  | none =>
    rw [keep_of_none h]
    exact Le.refl s
  | some t =>
    refine ⟨?_, ?_⟩
    · intro other ho
      have hm := congrArg Option.isSome (get?_keep_templates (s := s) key place text other)
      rw [Option.isSome_map, Option.isSome_map] at hm
      rwa [hm]
    · intro other p u hu
      rw [resolved_keep h, hu]
      rfl

end Store

/-! ## Soundness -/

namespace Render

/-- What is kept agrees with what would be read and rendered anew. -/
structure Sound (settings : Settings) (store : Store) (expressions : Expression.Cache) : Prop where
  expressions : expressions.Valid
  templates : ∀ key t, Fields.get? key store.templates = some t →
    settings.blocksAt key = .ok t.blocks
  statics : ∀ key place text, store.resolved key place = some text →
    ∃ body, settings.bodyAt key place = some body ∧
      Yields settings store.resolved key Context.empty (.blocks place 0 body) text

theorem sound_empty (settings : Settings) : Sound settings {} [] where
  expressions := Expression.Cache.valid_nil
  templates := nofun
  statics := nofun

variable {settings : Settings}

/-- A text that the body of a static block yields may be kept. -/
theorem Sound.keep {store : Store} {expressions : Expression.Cache}
    (h : Sound settings store expressions) {key : String} {place : Place} {body : List Block}
    {text : String} (hb : settings.bodyAt key place = some body)
    (hy : Yields settings store.resolved key Context.empty (.blocks place 0 body) text) :
    Sound settings (store.keep key place text) expressions := by
  have hle := store.le_keep key place text
  refine ⟨h.expressions, ?_, ?_⟩
  · intro other t ht
    have hm := store.get?_keep_templates key place text other
    rw [ht] at hm
    obtain ⟨t', ht', he⟩ := Option.map_eq_some_iff.1 hm.symm
    have he : t'.blocks = t.blocks := he
    exact he ▸ h.templates other t' ht'
  · intro other p u hu
    cases hk : Fields.get? key store.templates with
    | none =>
      rw [Store.keep_of_none hk] at hu ⊢
      exact h.statics other p u hu
    | some t =>
      rcases Store.resolved_keep_inv hk hu with hold | ⟨-, rfl, rfl, rfl⟩
      · obtain ⟨body', hb', hy'⟩ := h.statics other p u hold
        exact ⟨body', hb', hy'.mono hle.resolved⟩
      · exact ⟨body, hb, hy.mono hle.resolved⟩

/-! ## Steps that read -/

theorem bind_eq_ok {ε α β : Type} {x : Except ε α} {f : α → Except ε β} {b : β}
    (h : x.bind f = .ok b) : ∃ a, x = .ok a ∧ f a = .ok b := by
  cases x with
  | error e => cases h
  | ok a => exact ⟨a, rfl, h⟩

/-- The second state is the first one after something was read: what is kept is sound, nothing of it
is lost, and no texts of static blocks are new. -/
structure Reads (settings : Settings) (s s' : State) : Prop where
  sound : Sound settings s'.store s'.expressions
  le : Store.Le s.store s'.store
  resolved : s'.store.resolved = s.store.resolved
  context : s'.context = s.context
  chain : s'.chain = s.chain
  cells : s'.cells = s.cells

theorem Reads.refl {s : State} (h : Sound settings s.store s.expressions) : Reads settings s s :=
  ⟨h, Store.Le.refl _, rfl, rfl, rfl, rfl⟩

theorem Reads.trans {s₁ s₂ s₃ : State} (h : Reads settings s₁ s₂) (h' : Reads settings s₂ s₃) :
    Reads settings s₁ s₃ :=
  ⟨h'.sound, h.le.trans h'.le, h'.resolved.trans h.resolved, h'.context.trans h.context,
    h'.chain.trans h.chain, h'.cells.trans h.cells⟩

/-- An expression has the value that it would have if it were read anew. -/
theorem evaluate_inv {s s' : State} {source : String} {r : Except Error Value}
    (hs : Sound settings s.store s.expressions) (h : run (evaluate source) s = (r, s')) :
    r = valueOf source s.context ∧ Reads settings s s' := by
  obtain ⟨cache, hv, he⟩ := hs.expressions.evaluate source s.context
  rw [run, evaluate, he] at h
  cases h
  exact ⟨rfl, { hs with expressions := hv }, Store.Le.refl _, rfl, rfl, rfl, rfl⟩

theorem evaluateBindings_inv {s s' : State} {bindings : List (String × String)}
    {r : Except Error (Fields Value)} (hs : Sound settings s.store s.expressions)
    (h : run (evaluateBindings bindings) s = (r, s')) :
    r = valuesOf s.context bindings ∧ Reads settings s s' := by
  induction bindings generalizing s s' r with
  | nil =>
    cases h
    exact ⟨rfl, .refl hs⟩
  | cons binding bindings ih =>
    obtain ⟨name, source⟩ := binding
    rw [valuesOf]
    rcases hv : run (evaluate source) s with ⟨e | value, s₁⟩
    · obtain ⟨hr, h₁⟩ := evaluate_inv hs hv
      cases (run_bind_error hv).symm.trans h
      rw [← hr]
      exact ⟨rfl, h₁⟩
    · obtain ⟨hr, h₁⟩ := evaluate_inv hs hv
      have h := (run_bind_ok hv).symm.trans h
      rw [← hr]
      rcases hb : run (evaluateBindings bindings) s₁ with ⟨e | values, s₂⟩
      · obtain ⟨hr', h₂⟩ := ih h₁.sound hb
        cases (run_bind_error hb).symm.trans h
        rw [h₁.context] at hr'
        rw [← hr']
        exact ⟨rfl, h₁.trans h₂⟩
      · obtain ⟨hr', h₂⟩ := ih h₁.sound hb
        cases (run_bind_ok hb).symm.trans h
        rw [h₁.context] at hr'
        rw [← hr']
        exact ⟨rfl, h₁.trans h₂⟩

/-- A template that is read and stored. -/
theorem Sound.insert {store : Store} {expressions : Expression.Cache}
    (h : Sound settings store expressions) {key : String} {blocks : List Block}
    (hk : Fields.get? key store.templates = none) (hb : settings.blocksAt key = .ok blocks)
    (requests : List String) :
    Sound settings ⟨Fields.insert key ⟨blocks, []⟩ store.templates, requests⟩ expressions ∧
      Store.Le store ⟨Fields.insert key ⟨blocks, []⟩ store.templates, requests⟩ ∧
      (Store.mk (Fields.insert key ⟨blocks, []⟩ store.templates) requests).resolved =
        store.resolved := by
  have hr := Store.resolved_insert hk blocks requests
  refine ⟨⟨h.expressions, ?_, ?_⟩, ⟨?_, ?_⟩, hr⟩
  · intro other t ht
    rw [Fields.get?_insert] at ht
    split at ht
    · rename_i he
      cases ht
      exact he ▸ hb
    · exact h.templates other t ht
  · rw [hr]
    exact h.statics
  · intro other ho
    rw [Fields.get?_insert]
    split
    · rfl
    · exact ho
  · intro _ _ _ hu
    rw [hr]
    exact hu

/-- The outcome of loading the template `name`: what would be read anew, stored under its name. -/
def Loads (settings : Settings) (name : String) (store : Store) :
    Except Error (String × Template) → Prop
  | .error e => settings.blocksAt (settings.storedName name) = .error e
  | .ok (key, t) => key = settings.storedName name ∧ settings.blocksAt key = .ok t.blocks ∧
      Fields.get? key store.templates = some t

theorem Sound.load {store : Store} {expressions : Expression.Cache}
    (h : Sound settings store expressions) {loader : Loader} (hl : settings.loader = some loader)
    (name : String) :
    ∃ r store', store.load loader settings.config.parseOptions name = (r, store') ∧
      Sound settings store' expressions ∧ Store.Le store store' ∧
      store'.resolved = store.resolved ∧ Loads settings name store' r := by
  have hname : settings.storedName name = loader.canonicalName name := by
    rw [Settings.storedName, hl]
  rw [Store.load]
  cases ht : Fields.get? (loader.canonicalName name) store.templates with
  | some t =>
    exact ⟨_, store, rfl, h, Store.Le.refl _, rfl, hname.symm, h.templates _ t ht, ht⟩
  | none =>
    have hb : settings.blocksAt (loader.canonicalName name) =
        ((loader.load (loader.canonicalName name)).bind
          (Store.readTemplate settings.config.parseOptions)).map (·.blocks) := by
      rw [Settings.blocksAt, hl]
    simp only [Store.fetch]
    cases hf : (loader.load (loader.canonicalName name)).bind
        (Store.readTemplate settings.config.parseOptions) with
    | error e =>
      rw [hf] at hb
      refine ⟨_, _, rfl, ⟨h.expressions, h.templates, h.statics⟩,
        ⟨fun _ hk => hk, fun _ _ _ hk => hk⟩, rfl, ?_⟩
      show settings.blocksAt (settings.storedName name) = .error e
      rw [hname]
      exact hb
    | ok t =>
      rw [hf] at hb
      obtain ⟨text, -, hread⟩ := bind_eq_ok hf
      have ht' := Store.readTemplate_inv hread
      obtain ⟨hs, hle, hr⟩ := h.insert ht hb (loader.canonicalName name :: store.requests)
      rw [ht']
      refine ⟨_, _, rfl, hs, hle, hr, hname.symm, hb, ?_⟩
      rw [Fields.get?_insert, if_pos rfl]

/-- A template is loaded as it would be read anew. -/
theorem load_inv {s s' : State} {name : String} {r : Except Error (String × Template)}
    (hs : Sound settings s.store s.expressions) (h : run (load settings name) s = (r, s')) :
    Loads settings name s'.store r ∧ Reads settings s s' := by
  rw [run, load] at h
  split at h
  · rename_i hl
    cases h
    refine ⟨?_, .refl hs⟩
    show settings.blocksAt (settings.storedName name) = _
    rw [Settings.blocksAt, Settings.storedName, hl]
  · rename_i loader hl
    obtain ⟨r', store, hr, hs', hle, hres, hload⟩ := hs.load hl name
    rw [hr] at h
    cases h
    exact ⟨hload, hs', hle, hres, rfl, rfl, rfl⟩

end Render

end Stencil
