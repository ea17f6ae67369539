import Stencil.Markup.Parse
import Stencil.Resource.Loader
import Stencil.Template

/-!
# The store of templates

Templates that were loaded stay in the store under their canonical names, and the loader is asked
for a name only while the store has no template of that name. A template that cannot be loaded or
read is not stored (`Store.load_of_get?`, `Store.load_of_read`, `Store.load_of_error`).
-/

namespace Stencil

/-- Loaded templates. -/
structure Store where
  /-- The templates by canonical name. -/
  templates : Fields Template := []
  /-- The names that loaders were asked for, the last one first. -/
  requests : List String := []

namespace Store

/-- The number of templates in the store. -/
def size (s : Store) : Nat := s.templates.length

/-- The store without its templates. -/
def clear (s : Store) : Store := { s with templates := [] }

/-- The template that a text is. -/
def readTemplate (o : Markup.ParseOptions) (text : String) : Except Error Template :=
  match Markup.parse o text with
  | .ok blocks => .ok ⟨blocks, []⟩
  | .error e => .error (.markup e)

/-- Has the template `name` loaded and stored; `name` is canonical. -/
def fetch (s : Store) (loader : Loader) (o : Markup.ParseOptions) (name : String) :
    Except Error Template × Store :=
  let asked := { s with requests := name :: s.requests }
  match (loader.load name).bind (readTemplate o) with
  | .ok t => (.ok t, { asked with templates := Fields.insert name t asked.templates })
  | .error e => (.error e, asked)

/-- The canonical name of a template and the template itself, from the store or from the loader. -/
def load (s : Store) (loader : Loader) (o : Markup.ParseOptions) (name : String) :
    Except Error (String × Template) × Store :=
  let key := loader.canonicalName name
  match Fields.get? key s.templates with
  | some t => (.ok (key, t), s)
  | none =>
    let (result, s) := s.fetch loader o key
    (result.map (key, ·), s)

section

variable {s : Store} {loader : Loader} {o : Markup.ParseOptions} {name : String} {t : Template}
  {e : Error}

theorem load_of_get? (h : Fields.get? (loader.canonicalName name) s.templates = some t) :
    s.load loader o name = (.ok (loader.canonicalName name, t), s) := by
  simp only [load, h]

theorem load_of_read (h : Fields.get? (loader.canonicalName name) s.templates = none)
    (hr : (loader.load (loader.canonicalName name)).bind (readTemplate o) = .ok t) :
    s.load loader o name = (.ok (loader.canonicalName name, t),
      ⟨Fields.insert (loader.canonicalName name) t s.templates,
        loader.canonicalName name :: s.requests⟩) := by
  simp only [load, h, fetch, hr]
  rfl

theorem load_of_error (h : Fields.get? (loader.canonicalName name) s.templates = none)
    (hr : (loader.load (loader.canonicalName name)).bind (readTemplate o) = .error e) :
    s.load loader o name =
      (.error e, { s with requests := loader.canonicalName name :: s.requests }) := by
  simp only [load, h, fetch, hr]
  rfl

/-- A template was there, was read, or cannot be read. -/
theorem load_cases {r : Except Error (String × Template)} {s' : Store}
    (h : s.load loader o name = (r, s')) :
    (∃ t, Fields.get? (loader.canonicalName name) s.templates = some t ∧
      r = .ok (loader.canonicalName name, t) ∧ s' = s) ∨
    Fields.get? (loader.canonicalName name) s.templates = none ∧
      ((∃ t, (loader.load (loader.canonicalName name)).bind (readTemplate o) = .ok t ∧
        r = .ok (loader.canonicalName name, t) ∧
        s' = ⟨Fields.insert (loader.canonicalName name) t s.templates,
          loader.canonicalName name :: s.requests⟩) ∨
      ∃ e, (loader.load (loader.canonicalName name)).bind (readTemplate o) = .error e ∧
        r = .error e ∧ s' = { s with requests := loader.canonicalName name :: s.requests }) := by
  cases ht : Fields.get? (loader.canonicalName name) s.templates with
  | some t =>
    cases (load_of_get? ht).symm.trans h
    exact .inl ⟨t, rfl, rfl, rfl⟩
  | none =>
    cases hr : (loader.load (loader.canonicalName name)).bind (readTemplate o) with
    | ok t =>
      cases (load_of_read ht hr).symm.trans h
      exact .inr ⟨rfl, .inl ⟨t, rfl, rfl, rfl⟩⟩
    | error e =>
      cases (load_of_error ht hr).symm.trans h
      exact .inr ⟨rfl, .inr ⟨e, rfl, rfl, rfl⟩⟩

/-- A template that is stored stays as it is when templates are loaded. -/
theorem get?_of_load {r : Except Error (String × Template)} {s' : Store}
    (h : s.load loader o name = (r, s')) {key : String}
    (ht : Fields.get? key s.templates = some t) : Fields.get? key s'.templates = some t := by
  rcases load_cases h with ⟨t', -, -, rfl⟩ | ⟨hn, ⟨t', -, -, rfl⟩ | ⟨e, -, -, rfl⟩⟩
  · exact ht
  · rw [Fields.get?_insert, if_neg]
    · exact ht
    · rintro rfl
      cases hn.symm.trans ht
  · exact ht

end

/-- The text of a static block of a stored template. -/
def resolved (s : Store) (name : String) (place : Place) : Option String :=
  (Fields.get? name s.templates).bind (·.resolved place)

/-- The store with a text for a static block of a stored template, unless it has one. -/
def keep (s : Store) (name : String) (place : Place) (text : String) : Store :=
  match Fields.get? name s.templates with
  | some t =>
    let t := { t with cells := t.cells.keep place text }
    { s with templates := Fields.insert name t s.templates }
  | none => s

end Store

end Stencil
