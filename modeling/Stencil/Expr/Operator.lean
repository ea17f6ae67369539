import Stencil.Error
import Stencil.Number.Integer
import Stencil.Number.Remainder

/-!
# Operators

Operators on values. Integers stay integers as long as the exact result fits 64 bits, and arithmetic
on an integer and a float is float arithmetic. A string on either side makes `+` the concatenation
of texts.

Values of different types are different, except that an integer and a float are equal if they are
the same number. Numbers and strings are ordered, and no order holds with a NaN.
-/

namespace Stencil

/-- Why an operator has no value for its operands. -/
inductive OperatorFault where
  | mismatch
  | arithmetic (fault : ArithmeticFault)
deriving Repr, DecidableEq

/-- The integer with this value, which has to fit 64 bits. -/
def exactInt (n : Int) : Except OperatorFault Value :=
  match int64? n with
  | some i => .ok (.int i)
  | none => .error (.arithmetic .overflow)

/-- The value of a unary operator. -/
def UnaryOp.apply : UnaryOp → Value → Except OperatorFault Value
  | not, .bool b => .ok (.bool !b)
  | neg, .int n => exactInt (-n.toInt)
  | neg, .float x => .ok (.float (-x))
  | _, _ => .error .mismatch

namespace BinaryOp

/-- Arithmetic on integers. Division goes toward zero, and a remainder has the sign of the dividend;
the remainder of the least integer by -1 is refused like its quotient. -/
def applyInt (op : BinaryOp) (a b : Int) : Except OperatorFault Value :=
  match op with
  | add => exactInt (a + b)
  | sub => exactInt (a - b)
  | mul => exactInt (a * b)
  | div => if b = 0 then .error (.arithmetic .divisionByZero) else exactInt (a.tdiv b)
  | rem =>
    if b = 0 then .error (.arithmetic .divisionByZero)
    else (exactInt (a.tdiv b)).bind fun _ => exactInt (a.tmod b)
  | _ => .error .mismatch

/-- Arithmetic on floats. -/
def applyFloat (op : BinaryOp) (a b : Float) : Except OperatorFault Value :=
  match op with
  | add => .ok (.float (a + b))
  | sub => .ok (.float (a - b))
  | mul => .ok (.float (a * b))
  | div => .ok (.float (a / b))
  | rem => .ok (.float (Number.remainder a b))
  | _ => .error .mismatch

/-- Arithmetic on numbers. -/
def applyNumbers (op : BinaryOp) (l r : Value) : Except OperatorFault Value :=
  match l, r with
  | .int a, .int b => op.applyInt a.toInt b.toInt
  | l, r =>
    match l.float?, r.float? with
    | some a, some b => op.applyFloat a b
    | _, _ => .error .mismatch

/-- Equality of values. -/
def equal : Value → Value → Bool
  | .int a, .float b => floatOfInt64 a == b
  | .float a, .int b => a == floatOfInt64 b
  | l, r => l.same r

/-- How two floats are ordered; a NaN has no order. -/
def orderFloats (a b : Float) : Option Ordering :=
  if a < b then some .lt else if a == b then some .eq else if b < a then some .gt else none

/-- How two values are ordered: nothing for values without an order, and no ordering if one is a
NaN. -/
def order (l r : Value) : Option (Option Ordering) :=
  match l, r with
  | .int a, .int b => some (some (compare a.toInt b.toInt))
  | .str a, .str b => some (some (compare a b))
  | l, r =>
    match l.float?, r.float? with
    | some a, some b => some (orderFloats a b)
    | _, _ => none

/-- Whether a comparison holds of values that are ordered like this. -/
def holds (op : BinaryOp) : Option Ordering → Bool
  | some .lt => op = lt || op = le
  | some .eq => op = le || op = ge
  | some .gt => op = gt || op = ge
  | none => false

/-- The value of a binary operator for two evaluated operands. -/
def apply (op : BinaryOp) (l r : Value) : Except OperatorFault Value :=
  match op with
  | add =>
    match l, r with
    | .str _, _ => .ok (.str (l.display ++ r.display))
    | _, .str _ => .ok (.str (l.display ++ r.display))
    | _, _ => add.applyNumbers l r
  | eq => .ok (.bool (equal l r))
  | ne => .ok (.bool !(equal l r))
  | and =>
    match l, r with
    | .bool a, .bool b => .ok (.bool (a && b))
    | _, _ => .error .mismatch
  | or =>
    match l, r with
    | .bool a, .bool b => .ok (.bool (a || b))
    | _, _ => .error .mismatch
  | lt | le | gt | ge =>
    match order l r with
    | some o => .ok (.bool (op.holds o))
    | none => .error .mismatch
  | sub | mul | div | rem => op.applyNumbers l r

end BinaryOp

end Stencil
