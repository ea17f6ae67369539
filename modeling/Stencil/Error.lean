import Stencil.Expr.Token
import Stencil.Markup.Error

/-!
# Errors

Everything that can go wrong when a template is read, its data prepared and its text rendered, each
with the facts that belong to it. `Error.message` puts an error into words.
-/

namespace Stencil

/-- What an operator cannot be applied to. -/
inductive Operands where
  | one (type : ValueType)
  | two (left right : ValueType)
  /-- A property of a value that has none. -/
  | property (type : ValueType) (name : String)
deriving Repr, DecidableEq

/-- How operands are called in a message. -/
def Operands.describe : Operands → String
  | one t => t.name
  | two l r => l.name ++ " and " ++ r.name
  | property t name => t.name ++ " (property '" ++ name ++ "')"

/-- What integer arithmetic refuses. -/
inductive ArithmeticFault where
  | divisionByZero
  | overflow
deriving Repr, DecidableEq

/-- The words for an arithmetic fault. -/
def ArithmeticFault.message : ArithmeticFault → String
  | divisionByZero => "division by zero"
  | overflow => "integer overflow"

/-- Why a path of a file tree leads nowhere. -/
inductive PathFault where
  | missing
  | notDirectory
  | tooManyLinks
deriving Repr, DecidableEq

/-- The words for a path that leads nowhere. -/
def PathFault.message : PathFault → String
  | missing => "No such file or directory (os error 2)"
  | notDirectory => "Not a directory (os error 20)"
  | tooManyLinks => "Too many levels of symbolic links (os error 40)"

/-- Why the text of a template cannot be had, although its name may be known. -/
inductive LoadFault where
  | forbiddenCharacter
  | emptyName
  | badSegment (segment : String)
  | outsideRoot (path : String)
  | path (fault : PathFault)
  | invalidText
deriving Repr, DecidableEq

/-- The words for a load fault. -/
def LoadFault.message : LoadFault → String
  | forbiddenCharacter => "invalid resource name: contains '\\' or ':'"
  | emptyName => "invalid resource name: empty name"
  | badSegment segment => "invalid resource name: bad segment '" ++ segment ++ "'"
  | outsideRoot real => real ++ " is outside the template root"
  | path fault => fault.message
  | invalidText => "stream did not contain valid UTF-8"

/-- An error. -/
inductive Error where
  | markup (e : Markup.MarkupError)
  | unresolved (name expression : String)
  | typeMismatch (operator : String) (operands : Operands) (expression : String)
  | invalidExpression (expression : String) (e : SyntaxError)
  | arithmetic (expression : String) (fault : ArithmeticFault)
  | resourceNotFound (name : String)
  | resourceLoad (name : String) (fault : LoadFault)
  | cyclicInclusion (name : String) (chain : List String)
  | inclusionDepthExceeded (limit : Nat)
  | invalidContext (found : ValueType)
  | invalidConfig

/-- The message of an error. -/
def Error.message : Error → String
  | markup e => e.message
  | unresolved name expression =>
    "Unresolved variable '" ++ name ++ "' in expression '" ++ expression ++ "'"
  | typeMismatch operator operands expression =>
    "Type mismatch: operator '" ++ operator ++ "' cannot be applied to " ++ operands.describe ++
      " in expression '" ++ expression ++ "'"
  | invalidExpression expression e =>
    "Invalid expression '" ++ expression ++ "' at position " ++ toString e.position ++ ": " ++
      e.fault.message
  | arithmetic expression fault =>
    "Arithmetic error in expression '" ++ expression ++ "': " ++ fault.message
  | resourceNotFound name => "Template resource not found: " ++ name
  | resourceLoad name fault =>
    "Failed to read template resource '" ++ name ++ "': " ++ fault.message
  | cyclicInclusion name chain =>
    "Cyclic include of '" ++ name ++ "' (include chain: " ++ String.intercalate " -> " chain ++ ")"
  | inclusionDepthExceeded limit => "Include depth exceeds limit of " ++ toString limit
  | invalidContext found =>
    "Invalid render context: Root data must be an object, got " ++ found.name
  | invalidConfig => "Invalid configuration"

end Stencil
