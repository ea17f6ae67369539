import Stencil.Error
import Stencil.Fields

/-!
# Contexts

The bindings that expressions are evaluated in: those of the root, and above them a stack of local
scopes. A name stands for its innermost binding: a scope hides what is below it
(`Context.lookup_push`), and a binding of the root is seen where no scope has the name
(`Context.lookup_insert`).
-/

namespace Stencil

/-- The bindings of names. -/
structure Context where
  root : Fields Value := []
  /-- The local scopes, the innermost one first. -/
  scopes : List (Fields Value) := []

namespace Context

/-- The context without bindings. -/
def empty : Context := {}

/-- The context whose root bindings are the fields of an object. Null stands for no bindings. -/
def ofValue : Value → Except Error Context
  | .object fields => .ok ⟨fields, []⟩
  | .null => .ok empty
  | v => .error (.invalidContext v.type)

/-- The context with a root binding added or replaced. -/
def insert (name : String) (value : Value) (c : Context) : Context :=
  { c with root := c.root.insert name value }

/-- The context with one more scope. -/
def push (bindings : Fields Value) (c : Context) : Context :=
  { c with scopes := bindings :: c.scopes }

/-- The context without its innermost scope, if it has one. -/
def pop (c : Context) : Context := { c with scopes := c.scopes.tail }

/-- The number of local scopes. -/
def depth (c : Context) : Nat := c.scopes.length

/-- Runs `f` with one more scope, which is taken off again whatever the result of `f` is. -/
def withScope {α : Type} (bindings : Fields Value) (f : Context → α × Context) (c : Context) :
    α × Context :=
  let (result, c') := f (c.push bindings)
  (result, c'.pop)

/-- The value of a name. -/
def lookup (name : String) (c : Context) : Option Value :=
  (c.scopes.findSome? (Fields.get? name)).or (Fields.get? name c.root)

@[simp] theorem pop_push (bindings : Fields Value) (c : Context) : (c.push bindings).pop = c := rfl

@[simp] theorem depth_push (bindings : Fields Value) (c : Context) :
    (c.push bindings).depth = c.depth + 1 := rfl

theorem lookup_push (name : String) (bindings : Fields Value) (c : Context) :
    (c.push bindings).lookup name = (Fields.get? name bindings).or (c.lookup name) := by
  simp only [lookup, push, List.findSome?_cons]
  cases Fields.get? name bindings <;> rfl

theorem lookup_insert (name other : String) (value : Value) (c : Context)
    (h : c.scopes.findSome? (Fields.get? other) = none) :
    (c.insert name value).lookup other = if name = other then some value else c.lookup other := by
  simp [lookup, insert, h, Fields.get?_insert]

/-- The value that a sequence of property names leads to. `seen` is the path up to the value. -/
def follow (expression : String) (seen : List String) : Value → List String →
    Except Error Value
  | v, [] => .ok v
  | .object fields, name :: names =>
    match Fields.get? name fields with
    | some v => follow expression (seen ++ [name]) v names
    | none => .error (.unresolved (String.intercalate "." (seen ++ [name])) expression)
  | v, name :: _ => .error (.typeMismatch "." (.property v.type name) expression)

/-- The value of a path: a name and the properties after it. The expression that the path occurs in
is used in errors only. -/
def resolve (c : Context) (expression : String) : List String → Except Error Value
  | [] => .error (.unresolved "<empty path>" expression)
  | name :: names =>
    match c.lookup name with
    | some v => follow expression [name] v names
    | none => .error (.unresolved name expression)

end Context

end Stencil
