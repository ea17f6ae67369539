import Stencil.Context
import Stencil.Expr.Operand
import Stencil.Expr.Operator
import Stencil.Expr.Parse

/-!
# Evaluation

The operand that an expression stands for in a context. Operands are evaluated from left to right;
`&&` and `||` evaluate the right one only if the left one leaves the result open.
-/

namespace Stencil

/-- A parsed expression with its text, which errors quote. -/
structure Expression where
  source : String
  root : Expr

/-- The expression that a text is. -/
def Expression.parse (source : String) : Except Error Expression :=
  match Expr.parse source.toList with
  | .ok root => .ok ⟨source, root⟩
  | .error e => .error (.invalidExpression source e)

namespace Expr

/-- The error of an operator in the expression `source`. -/
def operatorError (source symbol : String) (operands : Operands) : OperatorFault → Error
  | .mismatch => .typeMismatch symbol operands source
  | .arithmetic fault => .arithmetic source fault

/-- The operand that an operator makes, or its error. -/
def computed (source symbol : String) (operands : Operands) :
    Except OperatorFault Value → Except Error Operand
  | .ok value => .ok ⟨.computed, value⟩
  | .error fault => .error (operatorError source symbol operands fault)

/-- The truth value of an operand of `&&` or `||`. -/
def truth (source : String) (op : BinaryOp) (o : Operand) : Except Error Bool :=
  match o.value with
  | .bool b => .ok b
  | v => .error (.typeMismatch op.symbol (.one v.type) source)

mutual

/-- The operand that an expression stands for. `source` is the whole expression, for errors. -/
def eval (source : String) (c : Context) : Expr → Except Error Operand
  | literal value => .ok ⟨.literal, value⟩
  | path segments =>
    match c.resolve source segments with
    | .ok value => .ok ⟨.named (String.intercalate "." segments), value⟩
    | .error e => .error e
  | array items =>
    match evalItems source c items with
    | .ok values => .ok ⟨.literal, .array values⟩
    | .error e => .error e
  | unary op e =>
    match eval source c e with
    | .ok o => computed source op.symbol (.one o.type) (op.apply o.value)
    | .error e => .error e
  | binary op l r =>
    match eval source c l with
    | .error e => .error e
    | .ok left =>
      if op = .and || op = .or then
        match truth source op left with
        | .error e => .error e
        | .ok decided =>
          if decided = (op = .or) then .ok ⟨.computed, .bool decided⟩
          else
            match eval source c r with
            | .error e => .error e
            | .ok right => (truth source op right).map fun b => ⟨.computed, .bool b⟩
      else
        match eval source c r with
        | .error e => .error e
        | .ok right =>
          computed source op.symbol (.two left.type right.type) (op.apply left.value right.value)

/-- The values of the items of an array. -/
def evalItems (source : String) (c : Context) : List Expr → Except Error (List Value)
  | [] => .ok []
  | e :: es =>
    match eval source c e with
    | .error e => .error e
    | .ok o => (evalItems source c es).map (o.value :: ·)

end

end Expr

namespace Expression

/-- The operand that an expression stands for in a context. -/
def evaluate (e : Expression) (c : Context) : Except Error Operand := e.root.eval e.source c

/-- Reads and evaluates an expression. -/
def evaluateText (source : String) (c : Context) : Except Error Operand :=
  match parse source with
  | .ok e => e.evaluate c
  | .error e => .error e

/-! ## Parsed expressions -/

/-- The parsed expressions that are kept, in the order of their texts. -/
abbrev Cache := Fields Expression

/-- The expression of a text, kept or read now, and the cache that keeps it. A text that cannot be
read is not kept. -/
def Cache.get (cache : Cache) (source : String) : Except Error Expression × Cache :=
  match Fields.get? source cache with
  | some e => (.ok e, cache)
  | none =>
    match parse source with
    | .ok e => (.ok e, Fields.insert source e cache)
    | .error e => (.error e, cache)

/-- Evaluates an expression through the cache. -/
def Cache.evaluate (cache : Cache) (source : String) (c : Context) :
    Except Error Operand × Cache :=
  match cache.get source with
  | (.ok e, cache) => (e.evaluate c, cache)
  | (.error e, cache) => (.error e, cache)

end Expression

end Stencil
