import Mathlib.Algebra.Group.Int.Defs
import Stencil.Expr.Eval

/-!
# Expressions of integers

An expression that is made of integers, of names that have integers as values, of `-` and of
arithmetic (`Expr.IsInteger`) has an exact value, which is computed without bounds
(`Expr.exactValue`). `Expr.operations` lists the operations on the way there with their exact
operands, an operation behind those of its operands and the left operand first.

Evaluation gives the exact value if every operation can be done with 64 bits
(`IntOperation.Fits`). Otherwise it fails, with the fault of the first operation that cannot
(`Expr.evaluate_integers`).
-/

namespace Stencil

/-! ## Operations without bounds -/

/-- The operators of arithmetic. -/
def BinaryOp.IsArithmetic (op : BinaryOp) : Prop :=
  op = .add ∨ op = .sub ∨ op = .mul ∨ op = .div ∨ op = .rem

instance (op : BinaryOp) : Decidable op.IsArithmetic := inferInstanceAs (Decidable (_ ∨ _))

/-- Arithmetic without bounds. Division goes toward zero, and a remainder has the sign of the
dividend. -/
def BinaryOp.exact : BinaryOp → Int → Int → Int
  | add, a, b => a + b
  | sub, a, b => a - b
  | mul, a, b => a * b
  | div, a, b => a.tdiv b
  | rem, a, b => a.tmod b
  | _, _, _ => 0

/-- The number is one of 64 bits. -/
def IsInt64 (n : Int) : Prop := -2 ^ 63 ≤ n ∧ n ≤ 2 ^ 63 - 1

instance (n : Int) : Decidable (IsInt64 n) := inferInstanceAs (Decidable (_ ∧ _))

/-- An operation on integers without bounds. -/
inductive IntOperation where
  | neg (a : Int)
  | binary (op : BinaryOp) (a b : Int)
deriving DecidableEq

namespace IntOperation

/-- The exact result. -/
def result : IntOperation → Int
  | neg a => -a
  | binary op a b => op.exact a b

/-- The divisor is zero. -/
def DividesByZero : IntOperation → Prop
  | neg _ => False
  | binary op _ b => (op = .div ∨ op = .rem) ∧ b = 0

instance : (o : IntOperation) → Decidable o.DividesByZero
  | neg _ => inferInstanceAs (Decidable False)
  | binary _ _ _ => inferInstanceAs (Decidable (_ ∧ _))

/-- The operation can be done with 64 bits. The remainder of the least integer by -1 is not among
these operations, although it is zero. -/
def Fits (o : IntOperation) : Prop :=
  ¬ o.DividesByZero ∧ IsInt64 o.result ∧ o ≠ binary .rem (-2 ^ 63) (-1)

instance (o : IntOperation) : Decidable o.Fits := inferInstanceAs (Decidable (_ ∧ _))

/-- What is wrong with an operation that cannot be done. -/
def fault (o : IntOperation) : ArithmeticFault :=
  if o.DividesByZero then .divisionByZero else .overflow

end IntOperation

/-! ## One operation -/

section

variable {n : Int} {x y : Int64} {op : BinaryOp}

theorem isInt64_toInt (x : Int64) : IsInt64 x.toInt := ⟨x.le_toInt, Int.le_sub_one_of_lt x.toInt_lt⟩

theorem exactInt_of_isInt64 (h : IsInt64 n) :
    ∃ m, exactInt n = .ok (.int m) ∧ m.toInt = n := by
  have hn : (Int64.ofInt n).toInt = n :=
    Int64.toInt_ofInt_of_le h.1 (Int.lt_of_le_sub_one h.2)
  refine ⟨Int64.ofInt n, ?_, hn⟩
  rw [exactInt, int64?_eq_some_iff.2 hn]

theorem exactInt_of_not_isInt64 (h : ¬ IsInt64 n) :
    exactInt n = .error (.arithmetic .overflow) := by
  cases hn : int64? n with
  | none => rw [exactInt, hn]
  | some m => exact absurd (int64?_eq_some_iff.1 hn ▸ isInt64_toInt m) h

/-- The only quotient of integers of 64 bits that is none itself is that of the least one by -1. -/
theorem isInt64_tdiv_iff :
    IsInt64 (x.toInt.tdiv y.toInt) ↔ ¬ (x.toInt = -2 ^ 63 ∧ y.toInt = -1) := by
  constructor
  · rintro h ⟨hx, hy⟩
    rw [hx, hy] at h
    revert h
    decide
  · intro h
    by_cases hx : x = Int64.minValue
    · have hy : y ≠ -1 := fun hy => h ⟨by rw [hx]; rfl, by rw [hy]; rfl⟩
      exact Int64.toInt_div_of_ne_right x y hy ▸ isInt64_toInt _
    · exact Int64.toInt_div_of_ne_left x y hx ▸ isInt64_toInt _

theorem isInt64_tmod (x y : Int64) : IsInt64 (x.toInt.tmod y.toInt) :=
  Int64.toInt_mod x y ▸ isInt64_toInt _

namespace BinaryOp

/-- Arithmetic on integers is integer arithmetic. -/
theorem apply_int (hop : op.IsArithmetic) (x y : Int64) :
    op.apply (.int x) (.int y) = op.applyInt x.toInt y.toInt := by
  rcases hop with rfl | rfl | rfl | rfl | rfl <;> rfl

/-- An operation that fits gives its exact result. -/
theorem apply_of_fits (hop : op.IsArithmetic)
    (h : (IntOperation.binary op x.toInt y.toInt).Fits) :
    ∃ m, op.apply (.int x) (.int y) = .ok (.int m) ∧ m.toInt = op.exact x.toInt y.toInt := by
  obtain ⟨hzero, hresult, hleast⟩ := h
  obtain ⟨m, hm, he⟩ := exactInt_of_isInt64 hresult
  rw [apply_int hop]
  refine ⟨m, ?_, he⟩
  rcases hop with rfl | rfl | rfl | rfl | rfl
  · exact hm
  · exact hm
  · exact hm
  · have hy : y.toInt ≠ 0 := fun hy => hzero ⟨.inl rfl, hy⟩
    rw [applyInt, if_neg hy]
    exact hm
  · have hy : y.toInt ≠ 0 := fun hy => hzero ⟨.inr rfl, hy⟩
    have hdiv : IsInt64 (x.toInt.tdiv y.toInt) :=
      isInt64_tdiv_iff.2 fun hxy => hleast (by rw [hxy.1, hxy.2])
    obtain ⟨q, hq, -⟩ := exactInt_of_isInt64 hdiv
    rw [applyInt, if_neg hy, hq]
    exact hm

/-- An operation that does not fit fails with its fault. -/
theorem apply_of_not_fits (hop : op.IsArithmetic)
    (h : ¬ (IntOperation.binary op x.toInt y.toInt).Fits) :
    op.apply (.int x) (.int y) =
      .error (.arithmetic (IntOperation.binary op x.toInt y.toInt).fault) := by
  rw [apply_int hop]
  by_cases hzero : (IntOperation.binary op x.toInt y.toInt).DividesByZero
  · obtain ⟨rfl | rfl, hy⟩ := id hzero <;>
      rw [applyInt, if_pos hy, IntOperation.fault, if_pos hzero]
  rw [IntOperation.fault, if_neg hzero]
  have hbound : ¬ (IsInt64 (op.exact x.toInt y.toInt) ∧
      IntOperation.binary op x.toInt y.toInt ≠ .binary .rem (-2 ^ 63) (-1)) :=
    fun hb => h ⟨hzero, hb⟩
  have hsmall (hne : op ≠ .rem) : ¬ IsInt64 (op.exact x.toInt y.toInt) :=
    fun hb => hbound ⟨hb, fun he => hne (IntOperation.binary.inj he).1⟩
  rcases hop with rfl | rfl | rfl | rfl | rfl
  · exact exactInt_of_not_isInt64 (hsmall (by decide))
  · exact exactInt_of_not_isInt64 (hsmall (by decide))
  · exact exactInt_of_not_isInt64 (hsmall (by decide))
  · have hy : y.toInt ≠ 0 := fun hy => hzero ⟨.inl rfl, hy⟩
    rw [applyInt, if_neg hy]
    exact exactInt_of_not_isInt64 (hsmall (by decide))
  · -- a remainder is always small enough, so the quotient is not
    have hy : y.toInt ≠ 0 := fun hy => hzero ⟨.inr rfl, hy⟩
    have hdiv : ¬ IsInt64 (x.toInt.tdiv y.toInt) := fun hb =>
      hbound ⟨isInt64_tmod x y, fun he => isInt64_tdiv_iff.1 hb (IntOperation.binary.inj he).2⟩
    rw [applyInt, if_neg hy, exactInt_of_not_isInt64 hdiv]
    rfl

end BinaryOp

end

/-! ## Expressions of integers -/

/-- The integer that a path leads to. -/
def Context.integer? (c : Context) (segments : List String) : Option Int64 :=
  match c.resolve "" segments with
  | .ok (.int n) => some n
  | _ => none

/-- What a path leads to does not depend on the expression that it occurs in. -/
theorem Context.follow_ok {v w : Value} {seen names : List String} {expression : String}
    (h : follow expression seen v names = .ok w) (other : String) :
    follow other seen v names = .ok w := by
  fun_induction follow expression seen v names with
  | case1 seen v => exact h
  | case2 seen fields name names v hv ih => rw [follow, hv]; exact ih h
  | case3 => cases h
  | case4 => cases h

theorem Context.resolve_of_integer? {c : Context} {segments : List String} {n : Int64}
    (h : c.integer? segments = some n) (source : String) :
    c.resolve source segments = .ok (.int n) := by
  have hr : c.resolve "" segments = .ok (.int n) := by
    unfold integer? at h
    split at h
    · rename_i hr
      rw [hr, Option.some.inj h]
    · cases h
  cases segments with
  | nil => cases hr
  | cons name names =>
    cases hv : c.lookup name with
    | none =>
      rw [resolve, hv] at hr
      cases hr
    | some v =>
      rw [resolve, hv] at hr ⊢
      exact follow_ok hr source

namespace Expr

/-- The expression is made of integers, of names with integers as values, of negations and of
arithmetic. -/
inductive IsInteger (c : Context) : Expr → Prop
  | literal (n : Int64) : IsInteger c (.literal (.int n))
  | path {segments : List String} {n : Int64} (h : c.integer? segments = some n) :
    IsInteger c (.path segments)
  | neg {e : Expr} (h : IsInteger c e) : IsInteger c (.unary .neg e)
  | binary {op : BinaryOp} {l r : Expr} (hop : op.IsArithmetic) (hl : IsInteger c l)
    (hr : IsInteger c r) : IsInteger c (.binary op l r)

/-- The value without bounds of an expression of integers. -/
def exactValue (c : Context) : Expr → Int
  | literal (.int n) => n.toInt
  | path segments => ((c.integer? segments).map Int64.toInt).getD 0
  | unary .neg e => -e.exactValue c
  | binary op l r => op.exact (l.exactValue c) (r.exactValue c)
  | _ => 0

/-- The operations of an expression of integers in the order in which they are done, with their
exact operands. -/
def operations (c : Context) : Expr → List IntOperation
  | unary .neg e => e.operations c ++ [.neg (e.exactValue c)]
  | binary op l r =>
    l.operations c ++ r.operations c ++ [.binary op (l.exactValue c) (r.exactValue c)]
  | _ => []

/-- The first operation that cannot be done. -/
def refused? (c : Context) (e : Expr) : Option IntOperation :=
  (e.operations c).find? fun o => ¬ o.Fits

section

variable {c : Context} {e l r : Expr} {op : BinaryOp}

theorem refused?_neg :
    (unary .neg e).refused? c =
      (e.refused? c).or
        (if (IntOperation.neg (e.exactValue c)).Fits then none
          else some (.neg (e.exactValue c))) := by
  rw [refused?, operations, List.find?_append, List.find?_singleton]
  simp [refused?]

theorem refused?_binary :
    (binary op l r).refused? c =
      ((l.refused? c).or (r.refused? c)).or
        (if (IntOperation.binary op (l.exactValue c) (r.exactValue c)).Fits then none
          else some (.binary op (l.exactValue c) (r.exactValue c))) := by
  rw [refused?, operations, List.find?_append, List.find?_append, List.find?_singleton]
  simp [refused?]

/-- Both operands of an operator of arithmetic are evaluated, the left one first. -/
theorem eval_binary (hop : op.IsArithmetic) (source : String) :
    (binary op l r).eval source c =
      match l.eval source c with
      | .error e => .error e
      | .ok left =>
        match r.eval source c with
        | .error e => .error e
        | .ok right =>
          computed source op.symbol (.two left.type right.type)
            (op.apply left.value right.value) := by
  have hop : ¬ (decide (op = .and) || decide (op = .or)) = true := by
    rcases hop with rfl | rfl | rfl | rfl | rfl <;> decide
  rw [eval]
  cases l.eval source c with
  | error e => rfl
  | ok left => exact if_neg hop

/-- What an expression of integers comes to if this is the first operation that cannot be done:
the exact value without such an operation, and otherwise its fault. -/
def Answers (source : String) (c : Context) (e : Expr) : Option IntOperation → Prop
  | none => ∃ origin n, e.eval source c = .ok ⟨origin, .int n⟩ ∧ n.toInt = e.exactValue c
  | some o => e.eval source c = .error (.arithmetic source o.fault)

/-- The last operation of a negation. -/
theorem answers_neg {source : String} {origin : Origin} {n : Int64}
    (he : e.eval source c = .ok ⟨origin, .int n⟩) (hn : n.toInt = e.exactValue c) :
    (unary .neg e).Answers source c
      (if (IntOperation.neg n.toInt).Fits then none else some (.neg n.toInt)) := by
  split
  · rename_i hfits
    obtain ⟨m, hm, hvalue⟩ := exactInt_of_isInt64 hfits.2.1
    refine ⟨.computed, m, ?_, ?_⟩
    · rw [eval, he]
      show computed source _ _ (exactInt (-n.toInt)) = _
      rw [show exactInt (-n.toInt) = _ from hm]
      rfl
    · rw [hvalue, exactValue, ← hn]
      rfl
  · rename_i hfits
    have hbound : ¬ IsInt64 (-n.toInt) := fun hb => hfits ⟨id, hb, nofun⟩
    show eval source c _ = _
    rw [eval, he]
    show computed source _ _ (exactInt (-n.toInt)) = _
    rw [exactInt_of_not_isInt64 hbound]
    rfl

/-- The last operation of an arithmetic expression. -/
theorem answers_binary {source : String} {origin origin' : Origin} {x y : Int64}
    (hop : op.IsArithmetic) (hl : l.eval source c = .ok ⟨origin, .int x⟩)
    (hx : x.toInt = l.exactValue c) (hr : r.eval source c = .ok ⟨origin', .int y⟩)
    (hy : y.toInt = r.exactValue c) :
    (binary op l r).Answers source c
      (if (IntOperation.binary op x.toInt y.toInt).Fits then none
        else some (.binary op x.toInt y.toInt)) := by
  split
  · rename_i hfits
    obtain ⟨m, hm, hvalue⟩ := BinaryOp.apply_of_fits hop hfits
    refine ⟨.computed, m, ?_, ?_⟩
    · rw [eval_binary hop, hl, hr]
      dsimp only
      rw [hm]
      rfl
    · rw [hvalue, exactValue, hx, hy]
  · rename_i hfits
    show eval source c _ = _
    rw [eval_binary hop, hl, hr]
    dsimp only
    rw [BinaryOp.apply_of_not_fits hop hfits]
    rfl

theorem IsInteger.answers (h : e.IsInteger c) (source : String) :
    e.Answers source c (e.refused? c) := by
  induction h with
  | literal n => exact ⟨.literal, n, rfl, rfl⟩
  | @path segments n hn =>
    refine ⟨.named (String.intercalate "." segments), n, ?_, ?_⟩
    · rw [eval, Context.resolve_of_integer? hn]
    · rw [exactValue, hn]
      rfl
  | @neg e h ih =>
    rw [refused?_neg]
    cases he : e.refused? c with
    | some o =>
      have ih : e.eval source c = .error (.arithmetic source o.fault) := by rwa [he] at ih
      show eval source c _ = _
      rw [eval, ih]
    | none =>
      rw [he] at ih
      obtain ⟨origin, n, heval, hn⟩ := ih
      rw [Option.none_or, ← hn]
      exact answers_neg heval hn
  | @binary op l r hop hl hr ihl ihr =>
    rw [refused?_binary]
    cases hel : l.refused? c with
    | some o =>
      have ihl : l.eval source c = .error (.arithmetic source o.fault) := by rwa [hel] at ihl
      show eval source c _ = _
      rw [eval_binary hop, ihl]
    | none =>
      rw [hel] at ihl
      obtain ⟨origin, x, hevall, hx⟩ := ihl
      cases her : r.refused? c with
      | some o =>
        have ihr : r.eval source c = .error (.arithmetic source o.fault) := by rwa [her] at ihr
        show eval source c _ = _
        rw [eval_binary hop, hevall, ihr]
      | none =>
        rw [her] at ihr
        obtain ⟨origin', y, hevalr, hy⟩ := ihr
        rw [Option.none_or, Option.none_or, ← hx, ← hy]
        exact answers_binary hop hevall hx hevalr hy

theorem refused?_eq_none_iff : e.refused? c = none ↔ ∀ o ∈ e.operations c, o.Fits := by
  simp [refused?]

end

/-! ## Integers are exact -/

/-- The evaluation of an expression of integers gives an integer exactly if all operations can be
done with 64 bits, and then the exact value. In all other cases it fails, with the fault of the
first operation that cannot be done. -/
theorem evaluate_integers {c : Context} {e : Expr} (h : e.IsInteger c) (source : String) :
    let result := (Expression.mk source e).evaluate c
    (∀ n : Int64, (∃ origin, result = .ok ⟨origin, .int n⟩) ↔
      (∀ o ∈ e.operations c, o.Fits) ∧ n.toInt = e.exactValue c) ∧
    ((∀ o ∈ e.operations c, o.Fits) → ∃ origin n, result = .ok ⟨origin, .int n⟩) ∧
    ∀ o, (e.operations c).find? (fun o => ¬ o.Fits) = some o →
      result = .error (.arithmetic source o.fault) ∧
        o.fault.message = if o.DividesByZero then "division by zero" else "integer overflow" := by
  intro result
  have hanswers := h.answers source
  refine ⟨fun n => ⟨?_, ?_⟩, ?_, ?_⟩
  · rintro ⟨origin, hn⟩
    cases he : e.refused? c with
    | none =>
      rw [he] at hanswers
      obtain ⟨origin', m, heval, hm⟩ := hanswers
      obtain ⟨-, rfl⟩ : origin' = origin ∧ m = n := by simpa using heval.symm.trans hn
      exact ⟨refused?_eq_none_iff.1 he, hm⟩
    | some o =>
      rw [he] at hanswers
      cases hn.symm.trans hanswers
  · rintro ⟨hfits, hn⟩
    rw [refused?_eq_none_iff.2 hfits] at hanswers
    obtain ⟨origin, m, heval, hm⟩ := hanswers
    exact ⟨origin, Int64.toInt_inj.1 (hm.trans hn.symm) ▸ heval⟩
  · intro hfits
    rw [refused?_eq_none_iff.2 hfits] at hanswers
    obtain ⟨origin, m, heval, -⟩ := hanswers
    exact ⟨origin, m, heval⟩
  · intro o ho
    rw [refused?, ho] at hanswers
    refine ⟨hanswers, ?_⟩
    rw [IntOperation.fault]
    split <;> rfl

/-- A dozen under the name `n`. -/
def dozen : Context := { root := [("n", .int 12)] }

/-- `(-n * 5 / 7) % 3` -/
def leftOver : Expr :=
  .binary .rem
    (.binary .div (.binary .mul (.unary .neg (.path ["n"])) (.literal (.int 5)))
      (.literal (.int 7)))
    (.literal (.int 3))

/-- `(9223372036854775807 + n) % (n - 12)`, in which two operations cannot be done. -/
def tooMuch : Expr :=
  .binary .rem (.binary .add (.literal (.int 9223372036854775807)) (.path ["n"]))
    (.binary .sub (.path ["n"]) (.literal (.int 12)))

theorem dozen_integers :
    leftOver.IsInteger dozen ∧ leftOver.exactValue dozen = -2 ∧
      (∃ origin, (Expression.mk "(-n * 5 / 7) % 3" leftOver).evaluate dozen =
        .ok ⟨origin, .int (-2)⟩) ∧
      tooMuch.IsInteger dozen ∧
      (Expression.mk "(9223372036854775807 + n) % (n - 12)" tooMuch).evaluate dozen =
        .error (.arithmetic "(9223372036854775807 + n) % (n - 12)" .overflow) := by
  have hn : IsInteger dozen (.path ["n"]) := .path rfl
  have hleft : leftOver.IsInteger dozen :=
    .binary (by decide) (.binary (by decide) (.binary (by decide) hn.neg (.literal 5)) (.literal 7))
      (.literal 3)
  have hmuch : tooMuch.IsInteger dozen :=
    .binary (by decide) (.binary (by decide) (.literal _) hn) (.binary (by decide) hn (.literal 12))
  have hfirst : (tooMuch.operations dozen).find? (fun o => ¬ o.Fits) =
      some (.binary .add 9223372036854775807 12) := by decide +kernel
  refine ⟨hleft, by decide +kernel, ?_, hmuch, ?_⟩
  · exact ((evaluate_integers hleft _).1 (-2)).2 ⟨by decide +kernel, by decide +kernel⟩
  · exact ((evaluate_integers hmuch _).2.2 _ hfirst).1

end Expr

end Stencil
