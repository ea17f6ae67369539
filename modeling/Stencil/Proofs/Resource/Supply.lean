import Mathlib.Data.List.Induction
import Mathlib.Data.Set.Card
import Stencil.Proofs.Fields
import Stencil.Resource.Store

/-!
# A store in use

Templates are loaded through a store while the texts behind its loader change, and from time to time
the store is cleared (`Supply.Action`). `Supply.Served` says which template a name was loaded as
since then: some load with this canonical name succeeded, and the store was not cleared after it.

The store holds exactly the templates that were served (`Supply.get?_after`). So the loader is asked
for a name, once and by its canonical name, exactly if the name has not been served; otherwise the
name is the template that it was, whatever the loader has now (`Supply.load_after`).
-/

namespace Stencil

/-- A store together with the loader that it asks. -/
structure Supply where
  loader : Loader
  options : Markup.ParseOptions
  store : Store := {}

namespace Supply

/-- What happens to a store in use. -/
inductive Action where
  | load (name : String)
  | clear
  /-- From now on the loader has other texts. -/
  | change (loader : Loader)

/-- What the load of a name comes to. -/
def load (x : Supply) (name : String) : Except Error Template :=
  (x.store.load x.loader x.options name).1.map (·.2)

/-- The store and its loader after an action. -/
def run (x : Supply) : Action → Supply
  | .load name => { x with store := (x.store.load x.loader x.options name).2 }
  | .clear => { x with store := x.store.clear }
  | .change loader => { x with loader := loader }

/-- The store and its loader after actions, in order. -/
def after (x : Supply) (actions : List Action) : Supply := actions.foldl run x

/-- In a run of these actions a load with the canonical name `key` came to `t`, and the store was
not cleared after it. -/
def Served (x : Supply) (actions : List Action) (key : String) (t : Template) : Prop :=
  ∃ before name later, actions = before ++ .load name :: later ∧ .clear ∉ later ∧
    (x.after before).loader.canonicalName name = key ∧ (x.after before).load name = .ok t

section

variable {x : Supply} {actions : List Action} {a : Action} {key name : String} {t : Template}

@[simp] theorem after_nil (x : Supply) : x.after [] = x := rfl

theorem after_concat (x : Supply) (actions : List Action) (a : Action) :
    x.after (actions ++ [a]) = (x.after actions).run a := by
  simp [after]

@[simp] theorem options_after (x : Supply) (actions : List Action) :
    (x.after actions).options = x.options := by
  induction actions using List.reverseRecOn with
  | nil => rfl
  | append_singleton actions a ih => cases a <;> rw [after_concat, run, ← ih]

/-! ## One load -/

theorem load_of_get? (h : Fields.get? (x.loader.canonicalName name) x.store.templates = some t) :
    x.load name = .ok t ∧ x.run (.load name) = x := by
  rw [load, run, Store.load_of_get? h]
  exact ⟨rfl, rfl⟩

/-- What is not stored is asked for. -/
theorem load_of_get?_none (h : Fields.get? (x.loader.canonicalName name) x.store.templates = none) :
    x.load name =
        (x.loader.load (x.loader.canonicalName name)).bind (Store.readTemplate x.options) ∧
      (x.run (.load name)).store.requests =
        x.loader.canonicalName name :: x.store.requests := by
  cases hr : (x.loader.load (x.loader.canonicalName name)).bind (Store.readTemplate x.options) with
  | ok t =>
    rw [load, run, Store.load_of_read h hr]
    exact ⟨rfl, rfl⟩
  | error e =>
    rw [load, run, Store.load_of_error h hr]
    exact ⟨rfl, rfl⟩

/-- After a load the store holds what it held before, and the template that the load came to. -/
theorem get?_run_load :
    Fields.get? key (x.run (.load name)).store.templates = some t ↔
      Fields.get? key x.store.templates = some t ∨
      x.loader.canonicalName name = key ∧ x.load name = .ok t := by
  rcases hs : x.store.load x.loader x.options name with ⟨r, s⟩
  rw [load, run, hs]
  rcases Store.load_cases hs with ⟨t', ht', rfl, rfl⟩ | ⟨hn, ⟨t', -, rfl, rfl⟩ | ⟨e, -, rfl, rfl⟩⟩
  · -- the template was there
    refine ⟨.inl, fun h => h.elim id ?_⟩
    rintro ⟨rfl, ht⟩
    cases ht
    exact ht'
  · -- it was read
    dsimp only
    rw [Fields.get?_insert]
    split
    · rename_i hkey
      subst hkey
      simp [hn, Except.map]
    · rename_i hkey
      simp [hkey]
  · simp [Except.map]

/-- A load that fails stores nothing. -/
theorem templates_of_error {e : Error} (h : x.load name = .error e) :
    (x.run (.load name)).store.templates = x.store.templates := by
  rcases hs : x.store.load x.loader x.options name with ⟨r, s⟩
  rw [load, hs] at h
  rw [run, hs]
  rcases Store.load_cases hs with ⟨t, -, rfl, rfl⟩ | ⟨-, ⟨t, -, rfl, rfl⟩ | ⟨e, -, rfl, rfl⟩⟩
  · rfl
  · cases h
  · rfl

theorem sorted_run (h : Fields.Sorted x.store.templates) (a : Action) :
    Fields.Sorted (x.run a).store.templates := by
  cases a with
  | clear => exact List.Pairwise.nil
  | change loader => exact h
  | load name =>
    rcases hs : x.store.load x.loader x.options name with ⟨r, s⟩
    rw [run, hs]
    rcases Store.load_cases hs with ⟨t, -, rfl, rfl⟩ | ⟨-, ⟨t, -, rfl, rfl⟩ | ⟨e, -, rfl, rfl⟩⟩
    · exact h
    · exact Fields.sorted_insert _ _ h
    · exact h

/-! ## What was served is stored -/

theorem served_nil : ¬ x.Served [] key t := by
  rintro ⟨before, name, later, h, -⟩
  simp at h

/-- The last action serves a template, or it leaves the store as it was. -/
theorem served_concat :
    x.Served (actions ++ [a]) key t ↔
      a ≠ .clear ∧ x.Served actions key t ∨
      ∃ name, a = .load name ∧ (x.after actions).loader.canonicalName name = key ∧
        (x.after actions).load name = .ok t := by
  constructor
  · rintro ⟨before, name, later, h, hclear, hkey, hload⟩
    rcases List.eq_nil_or_concat later with rfl | ⟨later, b, rfl⟩
    · obtain ⟨rfl, rfl⟩ : actions = before ∧ a = .load name := by simpa using h
      exact .inr ⟨name, rfl, hkey, hload⟩
    · rw [List.concat_eq_append] at h hclear
      rw [← List.cons_append, ← List.append_assoc] at h
      obtain ⟨rfl, hab⟩ := List.append_inj' h rfl
      obtain rfl := List.singleton_inj.1 hab
      rw [List.mem_append, List.mem_singleton, not_or] at hclear
      exact .inl ⟨Ne.symm hclear.2, before, name, later, rfl, hclear.1, hkey, hload⟩
  · rintro (⟨ha, before, name, later, rfl, hclear, hkey, hload⟩ | ⟨name, rfl, hkey, hload⟩)
    · refine ⟨before, name, later ++ [a], by simp, ?_, hkey, hload⟩
      rw [List.mem_append, List.mem_singleton, not_or]
      exact ⟨hclear, Ne.symm ha⟩
    · exact ⟨actions, name, [], rfl, List.not_mem_nil, hkey, hload⟩

/-- The store holds what was served. -/
theorem get?_after (hx : x.store.templates = []) (actions : List Action) (key : String)
    (t : Template) :
    Fields.get? key (x.after actions).store.templates = some t ↔ x.Served actions key t := by
  induction actions using List.reverseRecOn generalizing key t with
  | nil => simp [hx, served_nil]
  | append_singleton actions a ih =>
    rw [served_concat, after_concat]
    cases a with
    | clear => simp [run, Store.clear]
    | change loader => simp [run, ih]
    | load name =>
      simp [get?_run_load, ih]

theorem sorted_after (hx : x.store.templates = []) (actions : List Action) :
    Fields.Sorted (x.after actions).store.templates := by
  induction actions using List.reverseRecOn with
  | nil =>
    rw [after_nil, hx]
    exact List.Pairwise.nil
  | append_singleton actions a ih =>
    rw [after_concat]
    exact sorted_run ih a

/-- The size of the store is the number of names that were served. -/
theorem encard_served (hx : x.store.templates = []) (actions : List Action) :
    {key | ∃ t, x.Served actions key t}.encard = (x.after actions).store.size := by
  have hnodup := (sorted_after hx actions).nodup_names
  have hnames : {key | ∃ t, x.Served actions key t} =
      ((x.after actions).store.templates.map (·.1)).toFinset := by
    ext key
    simp [← get?_after hx, Fields.get?_eq_some_iff hnodup]
  rw [hnames, Set.encard_coe_eq_coe_finsetCard, List.toFinset_card_of_nodup hnodup,
    List.length_map, Store.size]

end

/-! ## Every name is read once -/

/-- After any run of loads, clearings and changes of the loader, the load of a name asks the loader,
which it does once and by the canonical name, exactly if no load with this canonical name has
succeeded since the store was cleared last. Otherwise it comes to what that load came to, and
changes nothing. A load that fails stores nothing, and the store has as many templates as names have
been loaded with success. -/
theorem load_after (loader : Loader) (options : Markup.ParseOptions) (actions : List Action)
    (name : String) :
    let start : Supply := ⟨loader, options, {}⟩
    let now := start.after actions
    let next := now.run (.load name)
    let key := now.loader.canonicalName name
    (next.store.requests = key :: now.store.requests ↔ ¬ ∃ t, start.Served actions key t) ∧
    (∀ t, start.Served actions key t → now.load name = .ok t ∧ next = now) ∧
    ((¬ ∃ t, start.Served actions key t) →
      now.load name = (now.loader.load key).bind (Store.readTemplate options)) ∧
    (∀ e, now.load name = .error e → next.store.templates = now.store.templates) ∧
    {key | ∃ t, start.Served actions key t}.encard = now.store.size := by
  intro start now next key
  have hserved (t : Template) :
      Fields.get? key now.store.templates = some t ↔ start.Served actions key t :=
    get?_after rfl actions key t
  have hnone (h : ¬ ∃ t, start.Served actions key t) : Fields.get? key now.store.templates = none :=
    Option.eq_none_iff_forall_ne_some.2 fun t ht => h ⟨t, (hserved t).1 ht⟩
  have hoptions : now.options = options := options_after start actions
  refine ⟨⟨?_, fun h => (load_of_get?_none (hnone h)).2⟩, ?_, ?_, ?_, ?_⟩
  · rintro hasked ⟨t, ht⟩
    have hsame : next = now := (load_of_get? ((hserved t).2 ht)).2
    rw [hsame] at hasked
    exact List.cons_ne_self _ _ hasked.symm
  · exact fun t ht => load_of_get? ((hserved t).2 ht)
  · intro h
    rw [(load_of_get?_none (hnone h)).1, hoptions]
  · exact fun e he => templates_of_error he
  · exact encard_served rfl actions

/-- A shelf with one text. -/
def cardShelf (text : String) : Loader := Shelf.loader [("card", text)]

/-- A store for this shelf from which nothing was loaded. -/
def cards : Supply := ⟨cardShelf "A", {}, {}⟩

/-- The card is loaded, another text is put in its place, and a text that is not there is looked
for. -/
def exchange : List Action := [.load "/card", .change (cardShelf "B"), .load "cart"]

/-- The card stays the one that was loaded, with and without a slash, until the store is cleared. -/
theorem cards_served :
    cards.Served exchange "card" ⟨[.text Markup.Location.start "A"], []⟩ ∧
    (cards.after exchange).load "card" = .ok ⟨[.text Markup.Location.start "A"], []⟩ ∧
    (¬ ∃ t, cards.Served exchange "cart" t) ∧
    (¬ ∃ t, cards.Served (exchange ++ [.clear]) "card" t) ∧
    (cards.after (exchange ++ [.clear])).load "/card" =
      .ok ⟨[.text Markup.Location.start "B"], []⟩ := by
  have hserved : cards.Served exchange "card" ⟨[.text Markup.Location.start "A"], []⟩ :=
    ⟨[], "/card", [.change (cardShelf "B"), .load "cart"], rfl, by simp, rfl,
      eq_ok_of_toOption (by decide +kernel)⟩
  have hnone : Fields.get? "cart" (cards.after exchange).store.templates = none := by
    decide +kernel
  have hcart : ¬ ∃ t, cards.Served exchange "cart" t := by
    rintro ⟨t, ht⟩
    rw [← get?_after rfl, hnone] at ht
    cases ht
  have hclear : ¬ ∃ t, cards.Served (exchange ++ [.clear]) "card" t := by
    simp [served_concat]
  obtain ⟨-, hkept, -⟩ := load_after (cardShelf "A") {} exchange "card"
  obtain ⟨-, -, hread, -⟩ := load_after (cardShelf "A") {} (exchange ++ [.clear]) "/card"
  exact ⟨hserved, (hkept _ hserved).1, hcart, hclear,
    (hread hclear).trans (eq_ok_of_toOption (by decide +kernel))⟩

end Supply

end Stencil
