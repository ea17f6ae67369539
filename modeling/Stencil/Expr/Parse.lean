import Stencil.Expr.Lexer

/-!
# From tokens to expressions

Precedence climbing: a chain of operators of one level joins operands of the next level to the
left, and above all levels stand the unary operators and the operands proper.

The nesting of a place in an expression is limited (`limit`); in templates the limit is
`maxNesting`. Parentheses, brackets and unary operators count one each, and an operator in a chain
counts as many as there are operators of the chain up to it: a long chain makes a tree that leans as
deep to the left.

Each reader returns a rest that is shorter than what it was given. The measure of the recursion is
this length before the level, as one number: recursion on a number can still be evaluated in proofs
about fixed texts.
-/

namespace Stencil

namespace Expr

/-- The limit on the nesting of expressions. -/
def maxNesting : Nat := 128

/-- The byte offset of the next token; the text ends at `stop`. -/
def nextPosition (stop : Nat) : List Token → Nat
  | [] => stop
  | t :: _ => t.position

/-- The kind of the next token. -/
def nextKind : List Token → Option TokenKind
  | [] => none
  | t :: _ => some t.kind

/-- The error of a fault at the next token. -/
def faultHere (stop : Nat) (ts : List Token) (fault : Option TokenKind → SyntaxFault) :
    SyntaxError :=
  ⟨nextPosition stop ts, fault (nextKind ts)⟩

/-- The error of an expression that is nested too deeply at the next token. -/
def tooDeepHere (stop : Nat) (ts : List Token) : SyntaxError :=
  ⟨nextPosition stop ts, .tooDeep⟩

/-- The binary operator that a chain of a level continues with, and the tokens after it. -/
def chainOp? (level : Nat) : List Token → Option (BinaryOp × List Token)
  | ⟨.op o, _, _⟩ :: ts => if o.level = level then some (o, ts) else none
  | _ => none

/-- The unary operator that comes next, and the tokens after it. -/
def unaryOp? : List Token → Option (UnaryOp × List Token)
  | ⟨.bang, _, _⟩ :: ts => some (.not, ts)
  | ⟨.op .sub, _, _⟩ :: ts => some (.neg, ts)
  | _ => none

/-- The literal that a token is. -/
def literal? : TokenKind → Option Value
  | .int n => some (.int n)
  | .float x => some (.float x)
  | .str s => some (.str s)
  | .bool b => some (.bool b)
  | .null => some .null
  | _ => none

/-- The marks between and around operands. -/
inductive Mark where
  | comma
  | closeParen
  | closeBracket

/-- Whether a token is a mark. -/
def Mark.is : Mark → TokenKind → Bool
  | comma, .comma => true
  | closeParen, .closeParen => true
  | closeBracket, .closeBracket => true
  | _, _ => false

/-- The tokens after a mark, if it comes next. -/
def drop? (m : Mark) : List Token → Option (List Token)
  | [] => none
  | t :: ts => if m.is t.kind then some ts else none

theorem length_drop? {m : Mark} {ts rest : List Token} (h : drop? m ts = some rest) :
    rest.length < ts.length := by
  unfold drop? at h
  split at h
  · cases h
  · split at h
    · cases h
      simp
    · cases h

theorem length_chainOp? {level : Nat} {ts rest : List Token} {op : BinaryOp}
    (h : chainOp? level ts = some (op, rest)) : rest.length < ts.length := by
  unfold chainOp? at h
  split at h
  · split at h
    · cases h
      simp
    · cases h
  · cases h

theorem length_unaryOp? {ts rest : List Token} {op : UnaryOp}
    (h : unaryOp? ts = some (op, rest)) : rest.length < ts.length := by
  unfold unaryOp? at h
  split at h <;> cases h <;> simp

/-- What a reader returns that uses at least one token. -/
abbrev Read (α : Type) (ts : List Token) :=
  Except SyntaxError (α × { rest : List Token // rest.length < ts.length })

/-- What a reader returns that may use no token. -/
abbrev ReadMore (α : Type) (ts : List Token) :=
  Except SyntaxError (α × { rest : List Token // rest.length ≤ ts.length })

/-- The properties after a name. -/
def readProperties (stop : Nat) : (ts : List Token) → ReadMore (List String) ts
  | ⟨.dot, _, _⟩ :: ⟨.ident name, _, _⟩ :: ts =>
    match readProperties stop ts with
    | .error e => .error e
    | .ok (names, rest) =>
      .ok (name :: names, ⟨rest.1, by
        have := rest.2
        simp only [List.length_cons]
        omega⟩)
  | ⟨.dot, _, _⟩ :: ts => .error (faultHere stop ts .noProperty)
  | ts => .ok ([], ⟨ts, Nat.le_refl _⟩)

mutual

/-- A chain of operators of a level with its operands, or above all levels a unary expression. -/
def readLevel (limit stop level nesting : Nat) (ts : List Token) : Read Expr ts :=
  if level < BinaryOp.levels then
    match readLevel limit stop (level + 1) nesting ts with
    | .error e => .error e
    | .ok (left, rest) =>
      match readChain limit stop level nesting left rest.1 with
      | .error e => .error e
      | .ok (e, rest') => .ok (e, ⟨rest'.1, Nat.lt_of_le_of_lt rest'.2 rest.2⟩)
  else readUnary limit stop nesting ts
termination_by 10 * ts.length + (BinaryOp.levels + 2 - min level BinaryOp.levels)
decreasing_by
  · simp only [BinaryOp.levels] at *
    omega
  · have := rest.2
    omega
  · simp only [BinaryOp.levels] at *
    omega

/-- The rest of a chain whose part up to here is `left`. -/
def readChain (limit stop level nesting : Nat) (left : Expr) (ts : List Token) :
    ReadMore Expr ts :=
  match h : chainOp? level ts with
  | none => .ok (left, ⟨ts, Nat.le_refl _⟩)
  | some (op, tail) =>
    if limit < nesting + 1 then .error (tooDeepHere stop ts)
    else
      have ht := length_chainOp? h
      match readLevel limit stop (level + 1) (nesting + 1) tail with
      | .error e => .error e
      | .ok (right, rest) =>
        have hr := rest.2
        match readChain limit stop level (nesting + 1) (.binary op left right) rest.1 with
        | .error e => .error e
        | .ok (e, rest') => .ok (e, ⟨rest'.1, by
            have := rest'.2
            omega⟩)
termination_by 10 * ts.length
decreasing_by
  · simp only [BinaryOp.levels]
    omega
  · omega

/-- An operand with unary operators before it. -/
def readUnary (limit stop nesting : Nat) (ts : List Token) : Read Expr ts :=
  match h : unaryOp? ts with
  | none => readPrimary limit stop nesting ts
  | some (op, tail) =>
    if limit < nesting + 1 then .error (tooDeepHere stop tail)
    else
      have ht := length_unaryOp? h
      match readUnary limit stop (nesting + 1) tail with
      | .error e => .error e
      | .ok (e, rest) => .ok (.unary op e, ⟨rest.1, Nat.lt_trans rest.2 ht⟩)
termination_by 10 * ts.length + 1
decreasing_by
  · omega
  · omega

/-- An operand: a literal, a path, an array, or an expression in parentheses. -/
def readPrimary (limit stop nesting : Nat) (ts : List Token) : Read Expr ts :=
  match ts with
  | [] => .error (faultHere stop [] .noOperand)
  | t :: ts =>
    match t.kind with
    | .ident name =>
      match readProperties stop ts with
      | .error e => .error e
      | .ok (names, rest) => .ok (.path (name :: names), ⟨rest.1, Nat.lt_succ_of_le rest.2⟩)
    | .openParen =>
      if limit < nesting + 1 then .error (tooDeepHere stop ts)
      else
        match readLevel limit stop 0 (nesting + 1) ts with
        | .error e => .error e
        | .ok (e, rest) =>
          match h : drop? .closeParen rest.1 with
          | some tail => .ok (e, ⟨tail, by
              have := length_drop? h
              have := rest.2
              simp only [List.length_cons]
              omega⟩)
          | none => .error (faultHere stop rest.1 .unclosedParen)
    | .openBracket =>
      if limit < nesting + 1 then .error (tooDeepHere stop ts)
      else
        match h : drop? .closeBracket ts with
        | some tail => .ok (.array [], ⟨tail, Nat.lt_succ_of_lt (length_drop? h)⟩)
        | none =>
          match readItems limit stop (nesting + 1) ts with
          | .error e => .error e
          | .ok (items, rest) => .ok (.array items, ⟨rest.1, Nat.lt_succ_of_lt rest.2⟩)
    | kind =>
      match literal? kind with
      | some value => .ok (.literal value, ⟨ts, Nat.lt_succ_self _⟩)
      | none => .error (faultHere stop (t :: ts) .noOperand)
termination_by 10 * ts.length
decreasing_by
  · simp only [BinaryOp.levels, List.length_cons]
    omega
  · simp only [BinaryOp.levels, List.length_cons]
    omega

/-- The items of an array up to its closing bracket. -/
def readItems (limit stop nesting : Nat) (ts : List Token) : Read (List Expr) ts :=
  match readLevel limit stop 0 nesting ts with
  | .error e => .error e
  | .ok (item, rest) =>
    match h : drop? .comma rest.1 with
    | some tail =>
      have ht : tail.length < ts.length := Nat.lt_trans (length_drop? h) rest.2
      match readItems limit stop nesting tail with
      | .error e => .error e
      | .ok (items, rest') => .ok (item :: items, ⟨rest'.1, Nat.lt_trans rest'.2 ht⟩)
    | none =>
      match h : drop? .closeBracket rest.1 with
      | some tail => .ok ([item], ⟨tail, Nat.lt_trans (length_drop? h) rest.2⟩)
      | none => .error (faultHere stop rest.1 .noItemEnd)
termination_by 10 * ts.length + (BinaryOp.levels + 3)
decreasing_by
  · simp only [BinaryOp.levels]
    omega
  · omega

end

/-- The expression that a list of tokens is; the text ends at `stop`. -/
def ofTokens (stop : Nat) (ts : List Token) : Except SyntaxError Expr :=
  match ts with
  | [] => .error ⟨0, .empty⟩
  | ts =>
    match readLevel maxNesting stop 0 0 ts with
    | .error e => .error e
    | .ok (e, rest) => if rest.1.isEmpty then .ok e else .error (faultHere stop rest.1 .trailing)

/-- The expression that a text is. -/
def parse (text : List Char) : Except SyntaxError Expr :=
  match Token.tokenize text with
  | .error e => .error e
  | .ok ts => ofTokens (Text.utf8Length text) ts

end Expr

end Stencil
