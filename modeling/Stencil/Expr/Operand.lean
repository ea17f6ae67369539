import Stencil.Value.Basic

/-!
# Operands

What an expression evaluates to: a value, with a note on where it comes from.
-/

namespace Stencil

/-- Where the value of an operand comes from. -/
inductive Origin where
  /-- It is written in the expression. -/
  | literal
  /-- It was looked up under a name. -/
  | named (name : String)
  /-- An operator made it. -/
  | computed
deriving Repr, DecidableEq

/-- An evaluated operand. -/
structure Operand where
  origin : Origin
  value : Value

/-- The type of an operand. -/
def Operand.type (o : Operand) : ValueType := o.value.type

end Stencil
