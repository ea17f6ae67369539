import Stencil.Render

/-!
# Engines

An engine has settings, and keeps what its renderings leave for later ones: templates and parsed
expressions. Every operation returns its result together with the engine after it, also when it
fails.
-/

namespace Stencil

/-- An engine. -/
structure Engine where
  settings : Settings := {}
  store : Store := {}
  expressions : Expression.Cache := []

namespace Engine

/-- An engine with settings, of which nothing has been rendered yet. -/
def new (config : Config) (loader : Option Loader) : Engine := { settings := ⟨config, loader⟩ }

/-- Runs a step of rendering on a template and a context. The results are that of the step, and
engine, template and context after it. -/
def run {α : Type} (e : Engine) (t : Template) (c : Context) (step : Render α) :
    Except Error α × Engine × Template × Context :=
  let (result, s) := Render.run step
    { context := c, cells := t.cells, store := e.store, expressions := e.expressions }
  (result, { e with store := s.store, expressions := s.expressions }, { t with cells := s.cells },
    s.context)

/-- Renders the static blocks of a template. -/
def bind (e : Engine) (t : Template) : Except Error Unit × Engine × Template :=
  let (result, e, t, _) := e.run t Context.empty (Render.bindBlocks e.settings [] 0 t.blocks)
  (result, e, t)

/-- Reads a template without rendering anything of it. -/
def read (e : Engine) (source : String) : Except Error Template :=
  Store.readTemplate e.settings.config.parseOptions source

/-- Reads a template and renders its static blocks. -/
def parse (e : Engine) (source : String) : Except Error Template × Engine :=
  match e.read source with
  | .error err => (.error err, e)
  | .ok t =>
    match e.bind t with
    | (.ok (), e, t) => (.ok t, e)
    | (.error err, e, _) => (.error err, e)

/-- Renders a template in a context. -/
def render (e : Engine) (t : Template) (c : Context) :
    Except Error String × Engine × Template × Context :=
  e.run t c (Render.tree e.settings t.blocks)

/-- Renders a template with data. -/
def renderData (e : Engine) (t : Template) (data : Value) :
    Except Error String × Engine × Template :=
  match Context.ofValue data with
  | .error err => (.error err, e, t)
  | .ok c =>
    let (result, e, t, _) := e.render t c
    (result, e, t)

/-- Reads a template and renders it with data. -/
def renderText (e : Engine) (source : String) (data : Value) : Except Error String × Engine :=
  match e.parse source with
  | (.error err, e) => (.error err, e)
  | (.ok t, e) =>
    let (result, e, _) := e.renderData t data
    (result, e)

/-- The template that a loader has under a name, as it is stored. Without a loader there is none. -/
def load (e : Engine) (name : String) : Except Error Template × Engine :=
  match e.settings.loader with
  | none => (.error (.resourceNotFound (stripRoot name)), e)
  | some loader =>
    let (result, store) := e.store.load loader e.settings.config.parseOptions name
    (result.map (·.2), { e with store := store })

/-- The engine without its stored templates. -/
def clear (e : Engine) : Engine := { e with store := e.store.clear }

/-- The engine with another loader. What is stored stays. -/
def withLoader (e : Engine) (loader : Loader) : Engine :=
  { e with settings := { e.settings with loader := some loader } }

/-- Evaluates an expression, which is kept in parsed form. -/
def evaluate (e : Engine) (source : String) (c : Context) : Except Error Operand × Engine :=
  let (result, cache) := e.expressions.evaluate source c
  (result, { e with expressions := cache })

end Engine

end Stencil
