import Stencil.Value.Basic

/-!
# Expressions

The syntax trees of expressions. Binary operators come in six levels, from `||`, which binds least,
to `*`, `/` and `%`, which bind most (`BinaryOp.level`).
-/

namespace Stencil

/-- The operators with one operand. -/
inductive UnaryOp where
  | not
  | neg
deriving Repr, DecidableEq

/-- How a unary operator is written. -/
def UnaryOp.symbol : UnaryOp → String
  | not => "!"
  | neg => "-"

/-- The operators with two operands. -/
inductive BinaryOp where
  | add
  | sub
  | mul
  | div
  | rem
  | eq
  | ne
  | lt
  | le
  | gt
  | ge
  | and
  | or
deriving Repr, DecidableEq

namespace BinaryOp

/-- How a binary operator is written. -/
def symbol : BinaryOp → String
  | add => "+"
  | sub => "-"
  | mul => "*"
  | div => "/"
  | rem => "%"
  | eq => "=="
  | ne => "!="
  | lt => "<"
  | le => "<="
  | gt => ">"
  | ge => ">="
  | and => "&&"
  | or => "||"

/-- How strongly a binary operator binds. -/
def level : BinaryOp → Nat
  | or => 0
  | and => 1
  | eq => 2
  | ne => 2
  | lt => 3
  | le => 3
  | gt => 3
  | ge => 3
  | add => 4
  | sub => 4
  | mul => 5
  | div => 5
  | rem => 5

/-- The level above those of all binary operators. -/
def levels : Nat := 6

end BinaryOp

/-- An expression. -/
inductive Expr where
  | literal (value : Value)
  /-- A name, followed by the names of properties. -/
  | path (segments : List String)
  | array (items : List Expr)
  | unary (op : UnaryOp) (operand : Expr)
  | binary (op : BinaryOp) (left right : Expr)

namespace Expr

mutual

/-- The height of an expression: leaves and empty arrays have height 0. -/
def height : Expr → Nat
  | literal _ => 0
  | path _ => 0
  | array items => heightItems items
  | unary _ e => height e + 1
  | binary _ l r => max (height l) (height r) + 1

/-- One more than the greatest height among the items of an array, or 0 without items. -/
def heightItems : List Expr → Nat
  | [] => 0
  | e :: es => max (height e + 1) (heightItems es)

end

end Expr

end Stencil
