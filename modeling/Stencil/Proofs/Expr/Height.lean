import Mathlib.Tactic.Ring
import Stencil.Expr.Eval
import Stencil.Proofs.Expr.Spelling

/-!
# The height of expressions

The nesting is counted from left to right: an operator of a chain counts for what stands to its
right. What stands to its left was read before, and ends up one level deeper all the same. So the
limit on the nesting does not bound the height (`height_above_maxNesting`).

It bounds the height as long as steps into left operands are not counted (`rightHeight`), and so the
height of an expression in which the left operands of all operators are leaves. It implies another
bound on all expressions, which is attained (`height_le_of_parse`, `height_attained`). A chain is as
high as its first operand and its operators together; chains of six levels may be around each other,
each with as many operators as the limit allows; and only unary operators, parentheses and brackets
leave less of the limit for what is inside of them. `tallest` adds this up.
-/

namespace Stencil.Expr

/-! ## The bound -/

/-- The greatest height of an operand with its unary operators, where the nesting may still grow by
`budget`. -/
def tallest : Nat → Nat
  | 0 => 0
  | budget + 1 => tallest budget + BinaryOp.levels * budget + 1

/-- The greatest height of an expression of a level: a chain of each level from this one on has
`budget` operators. -/
def tallestAt (level budget : Nat) : Nat := tallest budget + (BinaryOp.levels - level) * budget

theorem tallestAt_zero (budget : Nat) : tallestAt 0 budget = 3 * budget ^ 2 + 4 * budget := by
  have h : tallest budget + 2 * budget = 3 * budget ^ 2 := by
    induction budget with
    | zero => rfl
    | succ budget ih =>
      calc tallest (budget + 1) + 2 * (budget + 1)
          = tallest budget + 2 * budget + 6 * budget + 3 := by
            rw [tallest, BinaryOp.levels]
            ring
        _ = 3 * (budget + 1) ^ 2 := by
            rw [ih]
            ring
  rw [tallestAt, BinaryOp.levels]
  omega

theorem tallestAt_of_le {level : Nat} (h : BinaryOp.levels ≤ level) (budget : Nat) :
    tallestAt level budget = tallest budget := by
  rw [tallestAt, Nat.sub_eq_zero_of_le h, Nat.zero_mul, Nat.add_zero]

theorem tallestAt_of_lt {level : Nat} (h : level < BinaryOp.levels) (budget : Nat) :
    tallestAt level budget = tallestAt (level + 1) budget + budget := by
  obtain ⟨k, hk⟩ : ∃ k, BinaryOp.levels - level = k + 1 := ⟨BinaryOp.levels - level - 1, by omega⟩
  have hk' : BinaryOp.levels - (level + 1) = k := by omega
  rw [tallestAt, tallestAt, hk, hk', Nat.succ_mul, Nat.add_assoc]

theorem tallestAt_le (level budget : Nat) : tallestAt level budget ≤ tallestAt 0 budget :=
  Nat.add_le_add_left (Nat.mul_le_mul_right _ (Nat.sub_le_sub_left (Nat.zero_le _) _)) _

theorem tallest_mono : Monotone tallest := by
  apply monotone_nat_of_le_succ
  intro budget
  rw [tallest]
  omega

theorem tallestAt_mono (level : Nat) : Monotone (tallestAt level) := fun _ _ h =>
  Nat.add_le_add (tallest_mono h) (Nat.mul_le_mul_left _ h)

/-- What is inside of an operand has one level less to grow, and is one level less high. -/
theorem tallestAt_inside {limit nesting : Nat} (h : nesting + 1 ≤ limit) :
    tallestAt 0 (limit - (nesting + 1)) + 1 = tallest (limit - nesting) := by
  obtain ⟨budget, hb⟩ : ∃ budget, limit - nesting = budget + 1 := ⟨limit - nesting - 1, by omega⟩
  have hb' : limit - (nesting + 1) = budget := by omega
  rw [hb, hb', tallest, tallestAt, Nat.sub_zero]

/-! ## No expression is higher -/

mutual

/-- The height of an expression is bounded by what its counts leave of the limit. -/
theorem Derives.height_le {limit nesting : Nat} {rule : Rule} {ts : List Token} {e : Expr}
    {counts : List Nat} (hw : Within limit nesting counts) :
    Derives rule ts e counts → e.height ≤ tallestAt rule.level (limit - nesting)
  | .chain hj h => by
    obtain ⟨hl, hoperand, -⟩ := hj.levels
    obtain ⟨hh, hn⟩ := h.height_le hw
    rw [hoperand] at hh
    rw [tallestAt_of_lt hl]
    omega
  | .unary _ h => by
    have hw := within_map_add.1 hw
    have hh := h.height_le hw
    have hle := tallestAt_le Rule.unary.level (limit - (nesting + 1))
    rw [tallestAt_of_le (by decide), ← tallestAt_inside (hw.le h.counts_ne_nil), height]
    omega
  | .primary h => by
    have hh := h.height_le hw
    rwa [tallestAt_of_le (by decide)] at hh ⊢
  | .literal _ => Nat.zero_le _
  | .path _ _ => Nat.zero_le _
  | .paren _ h _ => by
    have hw := within_map_add.1 hw
    have hh : e.height ≤ tallestAt 0 _ := h.height_le hw
    rw [tallestAt_of_le (by decide), ← tallestAt_inside (hw.le h.counts_ne_nil)]
    omega
  | .emptyArray _ _ => Nat.zero_le _
  | .array _ h _ => by
    obtain ⟨hn, hw⟩ := within_cons.1 hw
    rw [tallestAt_of_le (by decide), ← tallestAt_inside hn]
    exact h.height_le (within_map_add.1 hw)

/-- Each operator of a chain makes what is to the left of it higher by one. -/
theorem Chain.height_le {limit nesting i : Nat} {rule : Rule} {ops : List BinaryOp}
    {ts : List Token} {e : Expr} {counts : List Nat} (hw : Within limit nesting counts) :
    Chain rule ops i ts e counts →
      e.height ≤ tallestAt rule.level (limit - nesting) + i ∧ nesting + i ≤ limit
  | .operand h => ⟨h.height_le hw, hw.le h.counts_ne_nil⟩
  | .join (i := i) h _ _ h' => by
    obtain ⟨hw, hw'⟩ := within_append.1 hw
    have hw' := within_map_add.1 hw'
    obtain ⟨hl, -⟩ := h.height_le hw
    have hr := h'.height_le hw'
    have hb : limit - (nesting + (i + 1)) ≤ limit - nesting := by omega
    have hmono := tallestAt_mono rule.level hb
    refine ⟨?_, hw'.le h'.counts_ne_nil⟩
    rw [height]
    omega

theorem Items.height_le {limit nesting : Nat} {ts : List Token} {es : List Expr}
    {counts : List Nat} (hw : Within limit nesting counts) :
    Items ts es counts → heightItems es ≤ tallestAt 0 (limit - nesting) + 1
  | .one (e := e) h => by
    have hh : e.height ≤ tallestAt 0 _ := h.height_le hw
    simp only [heightItems]
    omega
  | .more (e := e) h _ hs => by
    obtain ⟨hw, hw'⟩ := within_append.1 hw
    have hh : e.height ≤ tallestAt 0 _ := h.height_le hw
    have hs := hs.height_le hw'
    rw [heightItems]
    omega

end

/-! ## What the nesting counts -/

mutual

/-- The height of an expression, with steps into left operands not counted. -/
def rightHeight : Expr → Nat
  | literal _ => 0
  | path _ => 0
  | array items => rightHeightItems items
  | unary _ e => rightHeight e + 1
  | binary _ l r => max (rightHeight l) (rightHeight r + 1)

/-- One more than the greatest such height among the items of an array, or 0 without items. -/
def rightHeightItems : List Expr → Nat
  | [] => 0
  | e :: es => max (rightHeight e + 1) (rightHeightItems es)

end

mutual

/-- The left operands of all operators are leaves or empty arrays. -/
def LeftFlat : Expr → Prop
  | literal _ => True
  | path _ => True
  | array items => LeftFlatItems items
  | unary _ e => LeftFlat e
  | binary _ l r => l.height = 0 ∧ LeftFlat r

/-- The same of all items of an array. -/
def LeftFlatItems : List Expr → Prop
  | [] => True
  | e :: es => LeftFlat e ∧ LeftFlatItems es

end

mutual

theorem LeftFlat.height_le : (e : Expr) → e.LeftFlat → e.height ≤ e.rightHeight
  | .literal _, _ => Nat.le_refl _
  | .path _, _ => Nat.le_refl _
  | .array items, h => LeftFlatItems.height_le items h
  | .unary _ e, h => Nat.succ_le_succ (LeftFlat.height_le e h)
  | .binary _ l r, ⟨hl, h⟩ => by
    have hr := LeftFlat.height_le r h
    rw [height, rightHeight, hl]
    omega

theorem LeftFlatItems.height_le :
    (es : List Expr) → LeftFlatItems es → heightItems es ≤ rightHeightItems es
  | [], _ => Nat.le_refl _
  | e :: es, ⟨h, hs⟩ => by
    have he := LeftFlat.height_le e h
    have hes := LeftFlatItems.height_le es hs
    rw [heightItems, rightHeightItems]
    omega

end

mutual

/-- An operand is counted once for each operator that it is right of. -/
theorem Derives.rightHeight_le {limit nesting : Nat} {rule : Rule} {ts : List Token} {e : Expr}
    {counts : List Nat} (hw : Within limit nesting counts) :
    Derives rule ts e counts → nesting + e.rightHeight ≤ limit
  | .chain _ h => h.rightHeight_le hw
  | .primary h => h.rightHeight_le hw
  | .unary _ h => by
    have hh := h.rightHeight_le (within_map_add.1 hw)
    rw [rightHeight]
    omega
  | .literal _ => (within_cons.1 hw).1
  | .path _ _ => (within_cons.1 hw).1
  | .paren _ h _ => by
    have hh := h.rightHeight_le (within_map_add.1 hw)
    omega
  | .emptyArray _ _ => Nat.le_of_succ_le (within_cons.1 hw).1
  | .array _ h _ => by
    have hh := h.rightHeight_le (within_map_add.1 (within_cons.1 hw).2)
    rw [rightHeight]
    omega

theorem Chain.rightHeight_le {limit nesting i : Nat} {rule : Rule} {ops : List BinaryOp}
    {ts : List Token} {e : Expr} {counts : List Nat} (hw : Within limit nesting counts) :
    Chain rule ops i ts e counts → nesting + e.rightHeight ≤ limit
  | .operand h => h.rightHeight_le hw
  | .join h _ _ h' => by
    obtain ⟨hw, hw'⟩ := within_append.1 hw
    have hl := h.rightHeight_le hw
    have hr := h'.rightHeight_le (within_map_add.1 hw')
    rw [rightHeight]
    omega

theorem Items.rightHeight_le {limit nesting : Nat} {ts : List Token} {es : List Expr}
    {counts : List Nat} (hw : Within limit nesting counts) :
    Items ts es counts → nesting + rightHeightItems es ≤ limit + 1
  | .one h => by
    have hh := h.rightHeight_le hw
    simp only [rightHeightItems]
    omega
  | .more h _ hs => by
    obtain ⟨hw, hw'⟩ := within_append.1 hw
    have hh := h.rightHeight_le hw
    have hes := hs.rightHeight_le hw'
    rw [rightHeightItems]
    omega

end

/-! ## The highest expression -/

/-- The text of a chain: operators after a text, each with the operand 1. -/
def chained (op : BinaryOp) (cs : List Char) : Nat → List Char
  | 0 => cs
  | n + 1 => chained op cs n ++ (op.symbol.toList ++ ['1'])

/-- The expression of a chain. -/
def chainedExpr (op : BinaryOp) (e : Expr) : Nat → Expr
  | 0 => e
  | n + 1 => .binary op (chainedExpr op e n) (.literal (.int 1))

/-- The text of a chain of each level, every one with `n` operators. -/
def ridge (n : Nat) (cs : List Char) : List Char :=
  chained .or (chained .and (chained .eq (chained .lt (chained .add
    (chained .mul cs n) n) n) n) n) n

/-- The expression of a chain of each level. -/
def ridgeExpr (n : Nat) (e : Expr) : Expr :=
  chainedExpr .or (chainedExpr .and (chainedExpr .eq (chainedExpr .lt (chainedExpr .add
    (chainedExpr .mul e n) n) n) n) n) n

/-- The text of the highest operand with this much of the limit left. -/
def peak : Nat → List Char
  | 0 => ['1']
  | budget + 1 => '[' :: (ridge budget (peak budget) ++ [']'])

/-- The highest operand. -/
def peakExpr : Nat → Expr
  | 0 => .literal (.int 1)
  | budget + 1 => .array [ridgeExpr budget (peakExpr budget)]

theorem height_chainedExpr (op : BinaryOp) (e : Expr) (n : Nat) :
    (chainedExpr op e n).height = e.height + n := by
  induction n with
  | zero => rfl
  | succ n ih =>
    rw [chainedExpr, height, ih, height]
    omega

theorem height_ridgeExpr (n : Nat) (e : Expr) :
    (ridgeExpr n e).height = e.height + BinaryOp.levels * n := by
  simp only [ridgeExpr, height_chainedExpr, BinaryOp.levels]
  omega

theorem height_peakExpr (budget : Nat) : (peakExpr budget).height = tallest budget := by
  induction budget with
  | zero => rfl
  | succ budget ih =>
    simp only [peakExpr, height, heightItems, height_ridgeExpr, ih, tallest]
    omega

section

variable {limit nesting n : Nat} {rule operand : Rule} {ops : List BinaryOp} {cs : List Char}
  {e : Expr}

theorem Spells.chained (h : Spells limit nesting operand cs e) (op : BinaryOp)
    (hj : Joins rule operand ops) (hop : op ∈ ops) (hn : nesting + n ≤ limit) :
    Spells limit nesting rule (chained op cs n) (chainedExpr op e n) := by
  have hc : SpellsChain limit nesting operand ops n (Expr.chained op cs n)
      (chainedExpr op e n) := by
    induction n with
    | zero => exact h.operand
    | succ n ih =>
      have hone := (spells_one hn).mono operand.level_le
      exact (ih (by omega)).join hone hop nofun
  exact hc.spells hj

theorem Spells.ridge (h : Spells limit nesting .primary cs e) (hn : nesting + n ≤ limit) :
    Spells limit nesting .or (ridge n cs) (ridgeExpr n e) := by
  have hunary : Spells limit nesting .unary cs e := h.mono (by decide)
  have hmul := hunary.chained .mul .mult (by decide) hn
  have hadd := hmul.chained .add .additive (by decide) hn
  have hlt := hadd.chained .lt .compare (by decide) hn
  have heq := hlt.chained .eq .equality (by decide) hn
  have hand := heq.chained .and .and (by decide) hn
  exact hand.chained .or .or (by decide) hn

theorem spells_peak {budget : Nat} (hn : nesting + budget ≤ limit) :
    Spells limit nesting .primary (peak budget) (peakExpr budget) := by
  induction budget generalizing nesting with
  | zero => exact spells_one hn
  | succ budget ih =>
    have hn : nesting + 1 + budget ≤ limit := by omega
    exact ((ih hn).ridge hn).item.array (Nat.le_of_add_right_le hn)

end

/-! ## The height of what is read -/

/-- The limit on the nesting is 128, and an expression may be higher: here a chain of 128
multiplications is the first operand of an addition. -/
theorem height_above_maxNesting :
    ∃ e, Expression.parse (String.ofList (chained .add (chained .mul ['1'] 128) 1)) = .ok e ∧
      e.root.height = 129 := by
  have h : Spells maxNesting 0 .unary ['1'] (.literal (.int 1)) :=
    (spells_one (by decide)).mono (by decide)
  have hmul := h.chained .mul (n := 128) .mult (by decide) (by decide)
  have hadd := hmul.chained .add (n := 1) .additive (by decide) (by decide)
  refine ⟨_, parse_of_spells (hadd.mono (by decide)), ?_⟩
  rw [height_chainedExpr, height_chainedExpr, height]

theorem derives_of_parse {source : String} {e : Expression}
    (h : Expression.parse source = .ok e) :
    ∃ ts counts, Derives .or ts e.root counts ∧ Within maxNesting 0 counts := by
  unfold Expression.parse at h
  split at h
  · rename_i root hroot
    cases h
    unfold parse at hroot
    split at hroot
    · cases hroot
    · rename_i ts _
      obtain ⟨used, counts, -, hd, hw⟩ :=
        readLevel_sound maxNesting _ .or 0 ts (Nat.zero_le _) (Nat.zero_le _)
          (ofTokens_eq_ok_iff_returns.1 hroot)
      exact ⟨used, counts, hd, hw⟩
  · cases h

theorem tallestAt_maxNesting : tallestAt 0 maxNesting = 49664 :=
  (tallestAt_zero maxNesting).trans (by decide)

/-- For an expression that is read, the limit bounds the height with steps into left operands not
counted, and hence the height if all left operands are leaves. Otherwise the height is at most
49664. -/
theorem height_le_of_parse {source : String} {e : Expression}
    (h : Expression.parse source = .ok e) :
    e.root.rightHeight ≤ maxNesting ∧ (e.root.LeftFlat → e.root.height ≤ maxNesting) ∧
      e.root.height ≤ 49664 := by
  obtain ⟨ts, counts, hd, hw⟩ := derives_of_parse h
  have hright : 0 + e.root.rightHeight ≤ maxNesting := hd.rightHeight_le hw
  rw [Nat.zero_add] at hright
  refine ⟨hright, fun hflat => (hflat.height_le _).trans hright, ?_⟩
  exact (hd.height_le hw).trans_eq tallestAt_maxNesting

/-- The greatest height is attained, in an expression with left operands of any height. The product
of two numbers is one without. -/
theorem height_attained :
    (∃ source e, Expression.parse source = .ok e ∧ e.root.height = 49664 ∧
      e.root.rightHeight ≤ maxNesting ∧ e.root.height ≤ 49664) ∧
    ∃ e, Expression.parse "1*1" = .ok e ∧ e.root.LeftFlat ∧ e.root.height ≤ maxNesting := by
  constructor
  · have hpeak : Spells maxNesting 0 .primary (peak maxNesting) (peakExpr maxNesting) :=
      spells_peak (by decide)
    have hparse := parse_of_spells (hpeak.ridge (n := maxNesting) (by decide))
    obtain ⟨hright, -, hle⟩ := height_le_of_parse hparse
    refine ⟨_, _, hparse, ?_, hright, hle⟩
    rw [height_ridgeExpr, height_peakExpr, ← tallestAt_maxNesting, tallestAt, Nat.sub_zero]
  · have h : Spells maxNesting 0 .unary ['1'] (.literal (.int 1)) :=
      (spells_one (by decide)).mono (by decide)
    have hmul := h.chained .mul (n := 1) .mult (by decide) (by decide)
    have hparse : Expression.parse "1*1" = .ok ⟨"1*1", chainedExpr .mul (.literal (.int 1)) 1⟩ :=
      parse_of_spells (hmul.mono (by decide))
    have hflat : (chainedExpr .mul (.literal (.int 1)) 1).LeftFlat := ⟨rfl, trivial⟩
    exact ⟨_, hparse, hflat, (height_le_of_parse hparse).2.1 hflat⟩

end Stencil.Expr
