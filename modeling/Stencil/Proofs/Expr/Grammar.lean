import Stencil.Expr.Token

/-!
# The grammar of expressions

```
or       := and ('||' and)*
and      := equality ('&&' equality)*
equality := compare (('==' | '!=') compare)*
compare  := additive (('<' | '<=' | '>' | '>=') additive)*
additive := mult (('+' | '-') mult)*
mult     := unary (('*' | '/' | '%') unary)*
unary    := ('!' | '-') unary | primary
primary  := literal | path | '[' list? ']' | '(' or ')'
```

`Joins` has the first six of these rules, with the operators of each. `Derives rule ts e counts`
says that the tokens `ts` are the expression `e` by the rule. The operators of a chain associate to
the left (`Chain.join`).

The list `counts` holds one number for each operand proper and for each pair of brackets: how many
parentheses, brackets and unary operators are around it (directly inside, for a pair of brackets),
plus, for each chain around it, the index of the operand of that chain that it belongs to.

The grammar is written down on its own, without the levels that operators have for the readers. That
the readers accept exactly what it derives, as long as no count is above the limit, is shown in
`Stencil.Proofs.Expr.Reading`.
-/

namespace Stencil

/-- The token that a unary operator is written as. -/
def UnaryOp.kind : UnaryOp → TokenKind
  | not => .bang
  | neg => .op .sub

namespace Expr

/-- The rules of the grammar. -/
inductive Rule where
  | or
  | and
  | equality
  | compare
  | additive
  | mult
  | unary
  | primary

/-- The rules for chains. Each joins what the next rule derives, by operators of its own. -/
inductive Joins : Rule → Rule → List BinaryOp → Prop
  | or : Joins .or .and [.or]
  | and : Joins .and .equality [.and]
  | equality : Joins .equality .compare [.eq, .ne]
  | compare : Joins .compare .additive [.lt, .le, .gt, .ge]
  | additive : Joins .additive .mult [.add, .sub]
  | mult : Joins .mult .unary [.mul, .div, .rem]

/-- Every binary operator joins by a rule. -/
theorem exists_joins_mem (op : BinaryOp) :
    ∃ rule operand ops, Joins rule operand ops ∧ op ∈ ops := by
  cases op with
  | or => exact ⟨_, _, _, .or, by decide⟩
  | and => exact ⟨_, _, _, .and, by decide⟩
  | eq | ne => exact ⟨_, _, _, .equality, by decide⟩
  | lt | le | gt | ge => exact ⟨_, _, _, .compare, by decide⟩
  | add | sub => exact ⟨_, _, _, .additive, by decide⟩
  | mul | div | rem => exact ⟨_, _, _, .mult, by decide⟩

/-- Tokens that are literals, with their values. -/
inductive Literal : TokenKind → Value → Prop
  | int (n : Int64) : Literal (.int n) (.int n)
  | float (x : Float) : Literal (.float x) (.float x)
  | str (s : String) : Literal (.str s) (.str s)
  | bool (b : Bool) : Literal (.bool b) (.bool b)
  | null : Literal .null .null

/-- The properties after a name: a dot and an identifier for each. -/
inductive Properties : List Token → List String → Prop
  | nil : Properties [] []
  | cons {dot ident : Token} {name : String} {ts : List Token} {names : List String}
      (hd : dot.kind = .dot) (hi : ident.kind = .ident name) (h : Properties ts names) :
      Properties (dot :: ident :: ts) (name :: names)

mutual

/-- The tokens are an expression by a rule. -/
inductive Derives : Rule → List Token → Expr → List Nat → Prop
  /-- A chain of any length. -/
  | chain {rule operand : Rule} {ops : List BinaryOp} {i : Nat} {ts : List Token} {e : Expr}
      {counts : List Nat} (hj : Joins rule operand ops) (h : Chain operand ops i ts e counts) :
      Derives rule ts e counts
  | unary {t : Token} {ts : List Token} {op : UnaryOp} {e : Expr} {counts : List Nat}
      (ht : t.kind = op.kind) (h : Derives .unary ts e counts) :
      Derives .unary (t :: ts) (.unary op e) (counts.map (· + 1))
  | primary {ts : List Token} {e : Expr} {counts : List Nat} (h : Derives .primary ts e counts) :
      Derives .unary ts e counts
  | literal {t : Token} {v : Value} (ht : Literal t.kind v) : Derives .primary [t] (.literal v) [0]
  | path {t : Token} {ts : List Token} {name : String} {names : List String}
      (ht : t.kind = .ident name) (h : Properties ts names) :
      Derives .primary (t :: ts) (.path (name :: names)) [0]
  | paren {o c : Token} {ts : List Token} {e : Expr} {counts : List Nat}
      (ho : o.kind = .openParen) (h : Derives .or ts e counts) (hc : c.kind = .closeParen) :
      Derives .primary (o :: (ts ++ [c])) e (counts.map (· + 1))
  | emptyArray {o c : Token} (ho : o.kind = .openBracket) (hc : c.kind = .closeBracket) :
      Derives .primary [o, c] (.array []) [1]
  | array {o c : Token} {ts : List Token} {es : List Expr} {counts : List Nat}
      (ho : o.kind = .openBracket) (h : Items ts es counts) (hc : c.kind = .closeBracket) :
      Derives .primary (o :: (ts ++ [c])) (.array es) (1 :: counts.map (· + 1))

/-- The tokens are a chain of operands by a rule, with some operators between them. The number is
the index of the last operand. -/
inductive Chain : Rule → List BinaryOp → Nat → List Token → Expr → List Nat → Prop
  | operand {rule : Rule} {ops : List BinaryOp} {ts : List Token} {e : Expr} {counts : List Nat}
      (h : Derives rule ts e counts) : Chain rule ops 0 ts e counts
  | join {rule : Rule} {ops : List BinaryOp} {i : Nat} {ts us : List Token} {t : Token}
      {op : BinaryOp} {l r : Expr} {counts counts' : List Nat} (h : Chain rule ops i ts l counts)
      (ht : t.kind = .op op) (hop : op ∈ ops) (h' : Derives rule us r counts') :
      Chain rule ops (i + 1) (ts ++ t :: us) (.binary op l r)
        (counts ++ counts'.map (· + (i + 1)))

/-- The tokens are one or more expressions with commas between them. -/
inductive Items : List Token → List Expr → List Nat → Prop
  | one {ts : List Token} {e : Expr} {counts : List Nat} (h : Derives .or ts e counts) :
      Items ts [e] counts
  | more {ts us : List Token} {t : Token} {e : Expr} {es : List Expr} {counts counts' : List Nat}
      (h : Derives .or ts e counts) (ht : t.kind = .comma) (hs : Items us es counts') :
      Items (ts ++ t :: us) (e :: es) (counts ++ counts')

end

/-! ## Counts -/

/-- No count is above the limit, for tokens at a place that is nested as deep as `nesting`. -/
def Within (limit nesting : Nat) (counts : List Nat) : Prop := ∀ n ∈ counts, nesting + n ≤ limit

section Within

variable {limit nesting : Nat} {counts counts' : List Nat}

@[simp] theorem within_nil : Within limit nesting [] := nofun

@[simp] theorem within_cons {n : Nat} :
    Within limit nesting (n :: counts) ↔ nesting + n ≤ limit ∧ Within limit nesting counts := by
  simp [Within]

@[simp] theorem within_append :
    Within limit nesting (counts ++ counts') ↔
      Within limit nesting counts ∧ Within limit nesting counts' := by
  simp only [Within, List.mem_append, or_imp, forall_and]

@[simp] theorem within_map_add {k : Nat} :
    Within limit nesting (counts.map (· + k)) ↔ Within limit (nesting + k) counts := by
  simp only [Within, List.forall_mem_map]
  exact forall₂_congr fun n _ => by omega

/-- A place with an operand in it is itself not nested too deeply. -/
theorem Within.le (h : Within limit nesting counts) (hne : counts ≠ []) : nesting ≤ limit := by
  obtain ⟨n, hn⟩ := List.exists_mem_of_ne_nil counts hne
  exact Nat.le_of_add_right_le (h n hn)

end Within

mutual

/-- Every expression has an operand proper or a pair of brackets. -/
theorem Derives.counts_ne_nil {rule : Rule} {ts : List Token} {e : Expr} {counts : List Nat} :
    Derives rule ts e counts → counts ≠ []
  | .chain _ h => h.counts_ne_nil
  | .unary _ h => by simpa using h.counts_ne_nil
  | .primary h => h.counts_ne_nil
  | .literal _ => by simp
  | .path _ _ => by simp
  | .paren _ h _ => by simpa using h.counts_ne_nil
  | .emptyArray _ _ => by simp
  | .array _ _ _ => by simp

theorem Chain.counts_ne_nil {rule : Rule} {ops : List BinaryOp} {i : Nat} {ts : List Token}
    {e : Expr} {counts : List Nat} : Chain rule ops i ts e counts → counts ≠ []
  | .operand h => h.counts_ne_nil
  | .join h _ _ _ => by simp [h.counts_ne_nil]

end

end Expr

end Stencil
