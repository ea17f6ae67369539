import Stencil.Expr.Parse
import Stencil.Proofs.Expr.Grammar

/-!
# What the readers of expressions return

Each reader of `Stencil.Expr.Parse` has an equation for what it returns (`returns_readLevel`,
`returns_readChain`, ...), in terms of what the readers below it return. Nothing else has to unfold
a reader.

The readers know the rules of the grammar by their levels only. That the operators of a rule are
those of its level is stated once (`Joins.levels`).

`Ends` says of the tokens behind an expression that they cannot continue it.
-/

namespace Stencil.Expr

/-! ## Rules and levels -/

section

variable {rule operand : Rule} {ops : List BinaryOp}

/-- The level of a rule: the rules in their order. -/
def Rule.level : Rule → Nat
  | or => 0
  | and => 1
  | equality => 2
  | compare => 3
  | additive => 4
  | mult => 5
  | unary => 6
  | primary => 7

theorem Rule.level_injective : Function.Injective level := by
  intro rule rule' h
  cases rule <;> cases rule' <;> first | rfl | cases h

/-- A rule for chains joins by exactly the operators of its level, and what it joins is of the next
level. -/
theorem Joins.levels (h : Joins rule operand ops) :
    rule.level < BinaryOp.levels ∧ operand.level = rule.level + 1 ∧
      ∀ op, op ∈ ops ↔ op.level = rule.level := by
  cases h <;> exact ⟨by decide, rfl, fun op => by cases op <;> decide⟩

/-- Each level of operators has a rule for chains. -/
theorem exists_joins (h : rule.level < BinaryOp.levels) :
    ∃ operand ops, Joins rule operand ops := by
  cases rule with
  | or => exact ⟨_, _, .or⟩
  | and => exact ⟨_, _, .and⟩
  | equality => exact ⟨_, _, .equality⟩
  | compare => exact ⟨_, _, .compare⟩
  | additive => exact ⟨_, _, .additive⟩
  | mult => exact ⟨_, _, .mult⟩
  | unary | primary => exact absurd h (by decide)

end

/-! ## How expressions begin -/

/-- A token that an expression may begin with: all but the marks. -/
def Begins (t : Token) : Prop := ∀ m : Mark, m.is t.kind = false

theorem UnaryOp.is_kind (op : UnaryOp) (m : Mark) : m.is op.kind = false := by
  cases op <;> cases m <;> rfl

theorem Literal.is_eq_false {k : TokenKind} {v : Value} (h : Literal k v) (m : Mark) :
    m.is k = false := by
  cases h <;> cases m <;> rfl

mutual

theorem Derives.begins {rule : Rule} {ts : List Token} {e : Expr} {counts : List Nat} :
    Derives rule ts e counts → ∃ t us, ts = t :: us ∧ Begins t
  | .chain _ h => h.begins
  | .unary ht _ => ⟨_, _, rfl, by intro m; rw [ht]; exact UnaryOp.is_kind _ m⟩
  | .primary h => h.begins
  | .literal ht => ⟨_, _, rfl, ht.is_eq_false⟩
  | .path ht _ => ⟨_, _, rfl, by intro m; rw [ht]; cases m <;> rfl⟩
  | .paren ho _ _ => ⟨_, _, rfl, by intro m; rw [ho]; cases m <;> rfl⟩
  | .emptyArray ho _ => ⟨_, _, rfl, by intro m; rw [ho]; cases m <;> rfl⟩
  | .array ho _ _ => ⟨_, _, rfl, by intro m; rw [ho]; cases m <;> rfl⟩

theorem Chain.begins {rule : Rule} {ops : List BinaryOp} {i : Nat} {ts : List Token} {e : Expr}
    {counts : List Nat} : Chain rule ops i ts e counts → ∃ t us, ts = t :: us ∧ Begins t
  | .operand h => h.begins
  | .join h _ _ _ => by
    obtain ⟨t, us, rfl, ht⟩ := h.begins
    exact ⟨t, _, rfl, ht⟩

end

theorem Items.begins {ts : List Token} {es : List Expr} {counts : List Nat} :
    Items ts es counts → ∃ t us, ts = t :: us ∧ Begins t
  | .one h => h.begins
  | .more h _ _ => by
    obtain ⟨t, us, rfl, ht⟩ := h.begins
    exact ⟨t, _, rfl, ht⟩

/-! ## What the readers return -/

/-- A reader returns `a` and leaves the tokens `rest`. -/
def Returns {α : Type} {P : List Token → Prop} (r : Except SyntaxError (α × { rest // P rest }))
    (a : α) (rest : List Token) : Prop :=
  ∃ h, r = .ok (a, ⟨rest, h⟩)

theorem Returns.prop {α : Type} {P : List Token → Prop}
    {r : Except SyntaxError (α × { rest // P rest })} {a : α} {rest : List Token}
    (h : Returns r a rest) : P rest := by
  obtain ⟨hr, -⟩ := h
  exact hr

theorem Returns.unique {α : Type} {P : List Token → Prop}
    {r : Except SyntaxError (α × { rest // P rest })} {a b : α} {rest rest' : List Token}
    (h : Returns r a rest) (h' : Returns r b rest') : a = b ∧ rest = rest' := by
  obtain ⟨_, h⟩ := h
  obtain ⟨_, h'⟩ := h'
  rw [h] at h'
  simpa using h'

section

variable {limit stop level nesting : Nat} {ts rest : List Token} {e : Expr}

theorem literal?_eq_some_iff {k : TokenKind} {v : Value} : literal? k = some v ↔ Literal k v := by
  constructor
  · intro h
    cases k <;> simp only [literal?, Option.some.injEq, reduceCtorEq] at h <;> subst h <;>
      constructor
  · rintro ⟨⟩ <;> rfl

theorem readProperties_sound {names : List String}
    (h : Returns (readProperties stop ts) names rest) :
    ∃ used, ts = used ++ rest ∧ Properties used names := by
  fun_induction readProperties stop ts generalizing names rest with
  | case1 => obtain ⟨_, h⟩ := h; cases h
  | case2 _ _ name _ _ us names' rest' hr ih =>
    obtain ⟨_, h⟩ := h
    simp only [Except.ok.injEq, Prod.mk.injEq, Subtype.mk.injEq] at h
    obtain ⟨rfl, rfl⟩ := h
    obtain ⟨used, hu, hp⟩ := ih ⟨rest'.2, hr⟩
    exact ⟨_ :: _ :: used, congrArg (_ :: _ :: ·) hu, .cons rfl rfl hp⟩
  | case3 => obtain ⟨_, h⟩ := h; cases h
  | case4 =>
    obtain ⟨_, h⟩ := h
    simp only [Except.ok.injEq, Prod.mk.injEq, Subtype.mk.injEq] at h
    obtain ⟨rfl, rfl⟩ := h
    exact ⟨[], rfl, .nil⟩

theorem Properties.returns {used : List Token} {names : List String} (h : Properties used names)
    (hr : ∀ t ∈ rest.head?, t.kind ≠ .dot) :
    Returns (readProperties stop (used ++ rest)) names rest := by
  induction h with
  | nil =>
    show Returns (readProperties stop rest) [] rest
    refine ⟨Nat.le_refl _, ?_⟩
    unfold readProperties
    split
    · exact absurd rfl (hr _ rfl)
    · exact absurd rfl (hr _ rfl)
    · rfl
  | @cons dot ident name ts names hd hi h ih =>
    obtain ⟨dk, dp, dt⟩ := dot
    obtain ⟨ik, ip, it⟩ := ident
    cases hd
    cases hi
    obtain ⟨hl, ih⟩ := ih
    refine ⟨by simp only [List.length_cons, List.cons_append]; omega, ?_⟩
    simp only [List.cons_append, readProperties, ih]

theorem returns_readLevel (hl : level < BinaryOp.levels) :
    Returns (readLevel limit stop level nesting ts) e rest ↔
      ∃ left mid, Returns (readLevel limit stop (level + 1) nesting ts) left mid ∧
        Returns (readChain limit stop level nesting left mid) e rest := by
  rw [readLevel, if_pos hl]
  constructor
  · rintro ⟨hr, h⟩
    split at h
    · cases h
    · rename_i left mid hleft
      split at h
      · cases h
      · rename_i e' rest' hchain
        simp only [Except.ok.injEq, Prod.mk.injEq, Subtype.mk.injEq] at h
        obtain ⟨rfl, rfl⟩ := h
        exact ⟨left, mid.1, ⟨mid.2, hleft⟩, ⟨rest'.2, hchain⟩⟩
  · rintro ⟨left, mid, ⟨hm, hleft⟩, hr, hchain⟩
    simp only [hleft, hchain]
    exact ⟨Nat.lt_of_le_of_lt hr hm, rfl⟩

theorem returns_readLevel_of_le (hl : BinaryOp.levels ≤ level) :
    Returns (readLevel limit stop level nesting ts) e rest ↔
      Returns (readUnary limit stop nesting ts) e rest := by
  rw [readLevel, if_neg (Nat.not_lt_of_le hl)]

theorem returns_readChain {left : Expr} :
    Returns (readChain limit stop level nesting left ts) e rest ↔
      (chainOp? level ts = none ∧ e = left ∧ rest = ts) ∨
      ∃ op tail right mid, chainOp? level ts = some (op, tail) ∧ nesting + 1 ≤ limit ∧
        Returns (readLevel limit stop (level + 1) (nesting + 1) tail) right mid ∧
        Returns (readChain limit stop level (nesting + 1) (.binary op left right) mid) e rest := by
  rw [readChain]
  constructor
  · rintro ⟨hr, h⟩
    split at h
    · rename_i hop
      simp only [Except.ok.injEq, Prod.mk.injEq, Subtype.mk.injEq] at h
      exact .inl ⟨hop, h.1.symm, h.2.symm⟩
    · rename_i op tail hop
      split at h
      · cases h
      · rename_i hn
        dsimp only at h
        split at h
        · cases h
        · rename_i right mid hright
          split at h
          · cases h
          · rename_i e' rest' hchain
            simp only [Except.ok.injEq, Prod.mk.injEq, Subtype.mk.injEq] at h
            obtain ⟨rfl, rfl⟩ := h
            exact .inr ⟨op, tail, right, mid.1, hop, by omega, ⟨mid.2, hright⟩, rest'.2, hchain⟩
  · rintro (⟨hop, rfl, rfl⟩ | ⟨op, tail, right, mid, hop, hn, ⟨hm, hright⟩, hr, hchain⟩)
    · refine ⟨Nat.le_refl _, ?_⟩
      split
      · rfl
      · rename_i hop'
        rw [hop] at hop'
        cases hop'
    · have ht := length_chainOp? hop
      refine ⟨by omega, ?_⟩
      split
      · rename_i hop'
        rw [hop] at hop'
        cases hop'
      · rename_i op' tail' hop'
        obtain ⟨rfl, rfl⟩ := Prod.mk.inj (Option.some.inj (hop.symm.trans hop'))
        rw [if_neg (by omega)]
        simp only [hright, hchain]

theorem returns_readUnary :
    Returns (readUnary limit stop nesting ts) e rest ↔
      (unaryOp? ts = none ∧ Returns (readPrimary limit stop nesting ts) e rest) ∨
      ∃ op tail e', unaryOp? ts = some (op, tail) ∧ nesting + 1 ≤ limit ∧
        Returns (readUnary limit stop (nesting + 1) tail) e' rest ∧ e = .unary op e' := by
  rw [readUnary]
  constructor
  · rintro ⟨hr, h⟩
    split at h
    · rename_i hop
      exact .inl ⟨hop, hr, h⟩
    · rename_i op tail hop
      split at h
      · cases h
      · rename_i hn
        dsimp only at h
        split at h
        · cases h
        · rename_i e' rest' he
          simp only [Except.ok.injEq, Prod.mk.injEq, Subtype.mk.injEq] at h
          obtain ⟨rfl, rfl⟩ := h
          exact .inr ⟨op, tail, e', hop, by omega, ⟨rest'.2, he⟩, rfl⟩
  · rintro (⟨hop, hr, h⟩ | ⟨op, tail, e', hop, hn, ⟨hr, he⟩, rfl⟩)
    · refine ⟨hr, ?_⟩
      split
      · exact h
      · rename_i hop'
        rw [hop] at hop'
        cases hop'
    · have ht := length_unaryOp? hop
      refine ⟨by omega, ?_⟩
      split
      · rename_i hop'
        rw [hop] at hop'
        cases hop'
      · rename_i op' tail' hop'
        obtain ⟨rfl, rfl⟩ := Prod.mk.inj (Option.some.inj (hop.symm.trans hop'))
        rw [if_neg (by omega)]
        simp only [he]

theorem returns_readPrimary_path {t : Token} {name : String} (ht : t.kind = .ident name) :
    Returns (readPrimary limit stop nesting (t :: ts)) e rest ↔
      ∃ names, Returns (readProperties stop ts) names rest ∧ e = .path (name :: names) := by
  rw [readPrimary]
  simp only [ht]
  constructor
  · rintro ⟨hr, h⟩
    split at h
    · cases h
    · rename_i names rest' hp
      simp only [Except.ok.injEq, Prod.mk.injEq, Subtype.mk.injEq] at h
      obtain ⟨rfl, rfl⟩ := h
      exact ⟨names, ⟨rest'.2, hp⟩, rfl⟩
  · rintro ⟨names, ⟨hr, hp⟩, rfl⟩
    exact ⟨Nat.lt_succ_of_le hr, by simp only [hp]⟩

theorem returns_readPrimary_paren {t : Token} (ht : t.kind = .openParen) :
    Returns (readPrimary limit stop nesting (t :: ts)) e rest ↔
      nesting + 1 ≤ limit ∧ ∃ mid, Returns (readLevel limit stop 0 (nesting + 1) ts) e mid ∧
        drop? .closeParen mid = some rest := by
  rw [readPrimary]
  simp only [ht]
  constructor
  · rintro ⟨hr, h⟩
    split at h
    · cases h
    · rename_i hn
      split at h
      · cases h
      · rename_i e' mid he
        split at h
        · rename_i tail hd
          simp only [Except.ok.injEq, Prod.mk.injEq, Subtype.mk.injEq] at h
          obtain ⟨rfl, rfl⟩ := h
          exact ⟨by omega, mid.1, ⟨mid.2, he⟩, hd⟩
        · cases h
  · rintro ⟨hn, mid, ⟨hm, he⟩, hd⟩
    have hl := length_drop? hd
    refine ⟨by simp only [List.length_cons]; omega, ?_⟩
    rw [if_neg (by omega)]
    simp only [he]
    split
    · rename_i hd'
      cases hd.symm.trans hd'
      rfl
    · rename_i hd'
      rw [hd] at hd'
      cases hd'

theorem returns_readPrimary_array {t : Token} (ht : t.kind = .openBracket) :
    Returns (readPrimary limit stop nesting (t :: ts)) e rest ↔
      nesting + 1 ≤ limit ∧ ((drop? .closeBracket ts = some rest ∧ e = .array []) ∨
        (drop? .closeBracket ts = none ∧
          ∃ es, Returns (readItems limit stop (nesting + 1) ts) es rest ∧ e = .array es)) := by
  rw [readPrimary]
  simp only [ht]
  constructor
  · rintro ⟨hr, h⟩
    split at h
    · cases h
    · rename_i hn
      refine ⟨by omega, ?_⟩
      split at h
      · rename_i tail hd
        simp only [Except.ok.injEq, Prod.mk.injEq, Subtype.mk.injEq] at h
        obtain ⟨rfl, rfl⟩ := h
        exact .inl ⟨hd, rfl⟩
      · rename_i hd
        split at h
        · cases h
        · rename_i es rest' hs
          simp only [Except.ok.injEq, Prod.mk.injEq, Subtype.mk.injEq] at h
          obtain ⟨rfl, rfl⟩ := h
          exact .inr ⟨hd, es, ⟨rest'.2, hs⟩, rfl⟩
  · rintro ⟨hn, ⟨hd, rfl⟩ | ⟨hd, es, ⟨hr, hs⟩, rfl⟩⟩
    · refine ⟨Nat.lt_succ_of_lt (length_drop? hd), ?_⟩
      rw [if_neg (by omega)]
      split
      · rename_i hd'
        cases hd.symm.trans hd'
        rfl
      · rename_i hd'
        rw [hd] at hd'
        cases hd'
    · refine ⟨Nat.lt_succ_of_lt hr, ?_⟩
      rw [if_neg (by omega)]
      split
      · rename_i hd'
        rw [hd] at hd'
        cases hd'
      · simp only [hs]

theorem returns_readPrimary_literal {t : Token} (hi : ∀ name, t.kind ≠ .ident name)
    (hp : t.kind ≠ .openParen) (hb : t.kind ≠ .openBracket) :
    Returns (readPrimary limit stop nesting (t :: ts)) e rest ↔
      ∃ v, Literal t.kind v ∧ e = .literal v ∧ rest = ts := by
  rw [readPrimary]
  constructor
  · rintro ⟨hr, h⟩
    split at h
    · rename_i name ht
      exact absurd ht (hi name)
    · rename_i ht
      exact absurd ht hp
    · rename_i ht
      exact absurd ht hb
    · split at h
      · rename_i v hv
        simp only [Except.ok.injEq, Prod.mk.injEq, Subtype.mk.injEq] at h
        exact ⟨v, literal?_eq_some_iff.1 hv, h.1.symm, h.2.symm⟩
      · cases h
  · rintro ⟨v, hv, rfl, rfl⟩
    refine ⟨Nat.lt_succ_self _, ?_⟩
    split
    · rename_i name ht
      exact absurd ht (hi name)
    · rename_i ht
      exact absurd ht hp
    · rename_i ht
      exact absurd ht hb
    · simp only [literal?_eq_some_iff.2 hv]

theorem returns_readItems {es : List Expr} :
    Returns (readItems limit stop nesting ts) es rest ↔
      ∃ item mid, Returns (readLevel limit stop 0 nesting ts) item mid ∧
        ((∃ tail items, drop? .comma mid = some tail ∧
            Returns (readItems limit stop nesting tail) items rest ∧ es = item :: items) ∨
          (drop? .comma mid = none ∧ drop? .closeBracket mid = some rest ∧ es = [item])) := by
  rw [readItems]
  constructor
  · rintro ⟨hr, h⟩
    split at h
    · cases h
    · rename_i item mid hi
      refine ⟨item, mid.1, ⟨mid.2, hi⟩, ?_⟩
      split at h
      · rename_i tail hd
        dsimp only at h
        split at h
        · cases h
        · rename_i items rest' hs
          simp only [Except.ok.injEq, Prod.mk.injEq, Subtype.mk.injEq] at h
          obtain ⟨rfl, rfl⟩ := h
          exact .inl ⟨tail, items, hd, ⟨rest'.2, hs⟩, rfl⟩
      · rename_i hd
        split at h
        · rename_i tail hc
          simp only [Except.ok.injEq, Prod.mk.injEq, Subtype.mk.injEq] at h
          obtain ⟨rfl, rfl⟩ := h
          exact .inr ⟨hd, hc, rfl⟩
        · cases h
  · rintro ⟨item, mid, ⟨hm, hi⟩, ⟨tail, items, hd, ⟨hr, hs⟩, rfl⟩ | ⟨hd, hc, rfl⟩⟩
    · have hl := length_drop? hd
      refine ⟨by omega, ?_⟩
      simp only [hi]
      split
      · rename_i tail' hd'
        cases hd.symm.trans hd'
        simp only [hs]
      · rename_i hd'
        rw [hd] at hd'
        cases hd'
    · have hl := length_drop? hc
      refine ⟨by omega, ?_⟩
      simp only [hi]
      split
      · rename_i hd'
        rw [hd] at hd'
        cases hd'
      · split
        · rename_i hc'
          cases hc.symm.trans hc'
          rfl
        · rename_i hc'
          rw [hc] at hc'
          cases hc'

/-! ## What comes next -/

/-- The token of a mark. -/
def Mark.kind : Mark → TokenKind
  | comma => .comma
  | closeParen => .closeParen
  | closeBracket => .closeBracket

theorem Mark.is_eq_true_iff {m : Mark} {k : TokenKind} : m.is k = true ↔ k = m.kind := by
  cases m <;> cases k <;> simp [Mark.is, Mark.kind]

theorem drop?_eq_some_iff {m : Mark} :
    drop? m ts = some rest ↔ ∃ t, ts = t :: rest ∧ t.kind = m.kind := by
  cases ts with
  | nil => simp [drop?]
  | cons t ts =>
    simp only [drop?, Option.ite_none_right_eq_some, Option.some.injEq, Mark.is_eq_true_iff,
      List.cons.injEq]
    constructor
    · rintro ⟨h, rfl⟩
      exact ⟨t, ⟨rfl, rfl⟩, h⟩
    · rintro ⟨_, ⟨rfl, rfl⟩, h⟩
      exact ⟨h, rfl⟩

theorem Begins.drop?_eq_none {t : Token} (h : Begins t) (m : Mark) : drop? m (t :: ts) = none := by
  simp [drop?, h m]

theorem chainOp?_eq_some_iff {op : BinaryOp} :
    chainOp? level ts = some (op, rest) ↔
      ∃ t, ts = t :: rest ∧ t.kind = .op op ∧ op.level = level := by
  unfold chainOp?
  split
  · rename_i o p cs ts
    simp only [Option.ite_none_right_eq_some, Option.some.injEq, Prod.mk.injEq, List.cons.injEq]
    constructor
    · rintro ⟨h, rfl, rfl⟩
      exact ⟨_, ⟨rfl, rfl⟩, rfl, h⟩
    · rintro ⟨_, ⟨rfl, rfl⟩, h, hl⟩
      cases h
      exact ⟨hl, rfl, rfl⟩
  · rename_i h
    refine ⟨nofun, ?_⟩
    rintro ⟨⟨k, p, cs⟩, rfl, hk, -⟩
    cases hk
    exact absurd rfl (h op p cs rest)

theorem unaryOp?_eq_some_iff {op : UnaryOp} :
    unaryOp? ts = some (op, rest) ↔ ∃ t, ts = t :: rest ∧ t.kind = op.kind := by
  unfold unaryOp?
  constructor
  · intro h
    split at h <;> cases h <;> exact ⟨_, rfl, rfl⟩
  · rintro ⟨⟨k, p, cs⟩, rfl, hk⟩
    cases op <;> cases hk <;> rfl

theorem unaryOp?_eq_none {t : Token} (h : ∀ op : UnaryOp, t.kind ≠ op.kind) :
    unaryOp? (t :: ts) = none := by
  apply Option.eq_none_iff_forall_ne_some.2
  rintro ⟨op, tail⟩ hu
  obtain ⟨_, ht, hk⟩ := unaryOp?_eq_some_iff.1 hu
  cases ht
  exact h op hk

/-- The next token continues neither a path nor a chain of `level` or of a level above it. -/
def Ends (level : Nat) (ts : List Token) : Prop :=
  ∀ t ∈ ts.head?, t.kind ≠ .dot ∧ ∀ op, t.kind = .op op → op.level < level

theorem ends_nil : Ends level [] := by simp [Ends]

theorem ends_mark {t : Token} {m : Mark} (h : t.kind = m.kind) : Ends level (t :: ts) := by
  intro u hu
  cases hu
  rw [h]
  cases m <;> exact ⟨nofun, nofun⟩

theorem ends_op {t : Token} {op : BinaryOp} (h : t.kind = .op op) (hl : op.level < level) :
    Ends level (t :: ts) := by
  intro u hu
  cases hu
  rw [h]
  exact ⟨nofun, fun o ho => by cases ho; exact hl⟩

theorem Ends.mono {level' : Nat} (h : Ends level ts) (hl : level ≤ level') : Ends level' ts :=
  fun t ht => ⟨(h t ht).1, fun op ho => Nat.lt_of_lt_of_le ((h t ht).2 op ho) hl⟩

theorem Ends.chainOp?_eq_none (h : Ends level ts) : chainOp? level ts = none := by
  apply Option.eq_none_iff_forall_ne_some.2
  rintro ⟨op, tail⟩ hc
  obtain ⟨t, rfl, hk, hl⟩ := chainOp?_eq_some_iff.1 hc
  have := (h t rfl).2 op hk
  omega

end

end Stencil.Expr
