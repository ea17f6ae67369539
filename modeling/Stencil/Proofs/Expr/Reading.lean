import Stencil.Proofs.Expr.Readers

/-!
# Reading accepts the grammar

The readers of `Stencil.Expr.Parse` return `e` for some tokens exactly if the tokens derive `e` with
no count above the limit (`ofTokens_eq_ok_iff`).

* `readLevel_sound` and its companions: what a reader returns is derived by the tokens that it used.
* `Derives.returns` and its companions: a reader finds an expression that a beginning of its tokens
  derives, provided that the next token cannot continue the expression (`Ends`).

With a limit that exceeds all counts the readers find every derivation. As they return one result at
most, tokens derive one expression at most.
-/

namespace Stencil.Expr

/-! ## What is read is derived -/

mutual

theorem readLevel_sound (limit stop : Nat) (rule : Rule) (nesting : Nat) (ts : List Token)
    (hl : rule.level ≤ BinaryOp.levels) (hn : nesting ≤ limit) {e : Expr} {rest : List Token}
    (h : Returns (readLevel limit stop rule.level nesting ts) e rest) :
    ∃ used counts, ts = used ++ rest ∧ Derives rule used e counts ∧
      Within limit nesting counts := by
  rcases Nat.lt_or_eq_of_le hl with hl | hl
  · obtain ⟨operand, ops, hj⟩ := exists_joins hl
    obtain ⟨-, hoperand, -⟩ := hj.levels
    obtain ⟨left, mid, h₁, h₂⟩ := (returns_readLevel hl).1 h
    have hm := h₁.prop
    rw [← hoperand] at h₁
    obtain ⟨used, counts, hu, hd, hw⟩ :=
      readLevel_sound limit stop operand nesting ts (by omega) hn h₁
    obtain ⟨used', i, counts', hu', hc, hw'⟩ :=
      readChain_sound limit stop nesting 0 left mid hj (.operand hd) hw h₂
    exact ⟨used ++ used', counts', by rw [hu, hu', List.append_assoc], .chain hj hc, hw'⟩
  · obtain rfl : rule = .unary := Rule.level_injective hl
    exact readUnary_sound limit stop nesting ts hn ((returns_readLevel_of_le (Nat.le_refl _)).1 h)
termination_by 10 * ts.length + (BinaryOp.levels + 2 - min rule.level BinaryOp.levels)
decreasing_by
  · simp only [BinaryOp.levels] at *
    omega
  · omega
  · simp only [BinaryOp.levels] at *
    omega

/-- `done` are the tokens of the chain up to here, and `base` is the nesting of the whole chain. -/
theorem readChain_sound (limit stop base i : Nat) (left : Expr) (ts : List Token)
    {rule operand : Rule} {ops : List BinaryOp} (hj : Joins rule operand ops) {done : List Token}
    {counts : List Nat} (hc : Chain operand ops i done left counts) (hw : Within limit base counts)
    {e : Expr} {rest : List Token}
    (h : Returns (readChain limit stop rule.level (base + i) left ts) e rest) :
    ∃ used i' counts', ts = used ++ rest ∧ Chain operand ops i' (done ++ used) e counts' ∧
      Within limit base counts' := by
  rcases returns_readChain.1 h with ⟨-, rfl, rfl⟩ | ⟨op, tail, right, mid, hop, hn, h₁, h₂⟩
  · exact ⟨[], i, counts, rfl, by rwa [List.append_nil], hw⟩
  · have ht := length_chainOp? hop
    have hm := h₁.prop
    obtain ⟨hl, hoperand, hops⟩ := hj.levels
    obtain ⟨t, hts, hk, hlevel⟩ := chainOp?_eq_some_iff.1 hop
    rw [← hoperand] at h₁
    obtain ⟨used, counts₁, hu, hd, hw₁⟩ :=
      readLevel_sound limit stop operand (base + i + 1) tail (by omega) hn h₁
    obtain ⟨used', i', counts', hu', hc', hw'⟩ :=
      readChain_sound limit stop base (i + 1) (.binary op left right) mid hj
        (hc.join hk ((hops op).2 hlevel) hd) (within_append.2 ⟨hw, within_map_add.2 hw₁⟩) h₂
    exact ⟨t :: used ++ used', i', counts', by rw [hts, hu, hu']; simp, by simpa using hc', hw'⟩
termination_by 10 * ts.length
decreasing_by
  · simp only [BinaryOp.levels]
    omega
  · omega

theorem readUnary_sound (limit stop nesting : Nat) (ts : List Token) (hn : nesting ≤ limit)
    {e : Expr} {rest : List Token} (h : Returns (readUnary limit stop nesting ts) e rest) :
    ∃ used counts, ts = used ++ rest ∧ Derives .unary used e counts ∧
      Within limit nesting counts := by
  rcases returns_readUnary.1 h with ⟨-, h₁⟩ | ⟨op, tail, e', hop, hn', h₁, rfl⟩
  · obtain ⟨used, counts, hu, hd, hw⟩ := readPrimary_sound limit stop nesting ts hn h₁
    exact ⟨used, counts, hu, .primary hd, hw⟩
  · have ht := length_unaryOp? hop
    obtain ⟨t, hts, hk⟩ := unaryOp?_eq_some_iff.1 hop
    obtain ⟨used, counts, hu, hd, hw⟩ := readUnary_sound limit stop (nesting + 1) tail hn' h₁
    exact ⟨t :: used, _, by rw [hts, hu]; rfl, .unary hk hd, within_map_add.2 hw⟩
termination_by 10 * ts.length + 1
decreasing_by
  · omega
  · omega

theorem readPrimary_sound (limit stop nesting : Nat) (ts : List Token) (hn : nesting ≤ limit)
    {e : Expr} {rest : List Token} (h : Returns (readPrimary limit stop nesting ts) e rest) :
    ∃ used counts, ts = used ++ rest ∧ Derives .primary used e counts ∧
      Within limit nesting counts := by
  match ts with
  | [] =>
    obtain ⟨hr, -⟩ := h
    exact absurd hr (Nat.not_lt_zero _)
  | t :: ts =>
    by_cases hi : ∃ name, t.kind = .ident name
    · obtain ⟨name, ht⟩ := hi
      obtain ⟨names, hp, rfl⟩ := (returns_readPrimary_path ht).1 h
      obtain ⟨used, rfl, hu⟩ := readProperties_sound hp
      exact ⟨t :: used, [0], rfl, .path ht hu, by simpa using hn⟩
    by_cases hp : t.kind = .openParen
    · obtain ⟨hn', mid, h₁, hd⟩ := (returns_readPrimary_paren hp).1 h
      obtain ⟨c, rfl, hc⟩ := drop?_eq_some_iff.1 hd
      obtain ⟨used, counts, rfl, hd, hw⟩ :=
        readLevel_sound limit stop .or (nesting + 1) ts (Nat.zero_le _) hn' h₁
      exact ⟨t :: (used ++ [c]), _, by simp, .paren hp hd hc, within_map_add.2 hw⟩
    by_cases hb : t.kind = .openBracket
    · obtain ⟨hn', ⟨hd, rfl⟩ | ⟨hd, es, h₁, rfl⟩⟩ := (returns_readPrimary_array hb).1 h
      · obtain ⟨c, rfl, hc⟩ := drop?_eq_some_iff.1 hd
        exact ⟨[t, c], [1], rfl, .emptyArray hb hc, by simpa using hn'⟩
      · obtain ⟨used, c, counts, rfl, hs, hc, hw⟩ :=
          readItems_sound limit stop (nesting + 1) ts hn' h₁
        exact ⟨t :: (used ++ [c]), _, by simp, .array hb hs hc,
          within_cons.2 ⟨hn', within_map_add.2 hw⟩⟩
    · obtain ⟨v, hv, rfl, rfl⟩ :=
        (returns_readPrimary_literal (fun name ht => hi ⟨name, ht⟩) hp hb).1 h
      exact ⟨[t], [0], rfl, .literal hv, by simpa using hn⟩
termination_by 10 * ts.length
decreasing_by
  · simp only [BinaryOp.levels, List.length_cons]
    omega
  · simp only [BinaryOp.levels, List.length_cons]
    omega

theorem readItems_sound (limit stop nesting : Nat) (ts : List Token) (hn : nesting ≤ limit)
    {es : List Expr} {rest : List Token} (h : Returns (readItems limit stop nesting ts) es rest) :
    ∃ used c counts, ts = used ++ c :: rest ∧ Items used es counts ∧ c.kind = .closeBracket ∧
      Within limit nesting counts := by
  obtain ⟨item, mid, h₁, ⟨tail, items, hd, h₂, rfl⟩ | ⟨-, hd, rfl⟩⟩ := returns_readItems.1 h
  · have ht : tail.length < ts.length := Nat.lt_trans (length_drop? hd) h₁.prop
    obtain ⟨comma, hmid, hk⟩ := drop?_eq_some_iff.1 hd
    obtain ⟨used, counts, hu, hd, hw⟩ :=
      readLevel_sound limit stop .or nesting ts (Nat.zero_le _) hn h₁
    obtain ⟨used', c, counts', hu', hs, hc, hw'⟩ := readItems_sound limit stop nesting tail hn h₂
    exact ⟨used ++ comma :: used', c, _, by rw [hu, hmid, hu']; simp, .more hd hk hs, hc,
      within_append.2 ⟨hw, hw'⟩⟩
  · obtain ⟨c, rfl, hc⟩ := drop?_eq_some_iff.1 hd
    obtain ⟨used, counts, hu, hd, hw⟩ :=
      readLevel_sound limit stop .or nesting ts (Nat.zero_le _) hn h₁
    exact ⟨used, c, counts, hu, .one hd, hc, hw⟩
termination_by 10 * ts.length + (BinaryOp.levels + 3)
decreasing_by
  · simp only [BinaryOp.levels]
    omega
  · omega
  · simp only [BinaryOp.levels]
    omega

end

/-! ## What is derived is read -/

theorem Literal.not_other {k : TokenKind} {v : Value} (h : Literal k v) :
    (∀ name, k ≠ .ident name) ∧ k ≠ .openParen ∧ k ≠ .openBracket ∧
      ∀ op : UnaryOp, k ≠ op.kind := by
  cases h <;> exact ⟨nofun, nofun, nofun, fun op => by cases op <;> exact nofun⟩

section

variable {limit stop nesting : Nat}

theorem returns_of_primary {t : Token} {ts rest : List Token} {e : Expr}
    (h : Returns (readPrimary limit stop nesting (t :: ts)) e rest)
    (ht : ∀ op : UnaryOp, t.kind ≠ op.kind) :
    Returns (readLevel limit stop Rule.primary.level nesting (t :: ts)) e rest :=
  (returns_readLevel_of_le (by decide)).2 (returns_readUnary.2 (.inl ⟨unaryOp?_eq_none ht, h⟩))

mutual

theorem Derives.returns {rule : Rule} {nesting : Nat} {ts rest : List Token} {e : Expr}
    {counts : List Nat} (hw : Within limit nesting counts) (hr : Ends rule.level rest) :
    Derives rule ts e counts →
      Returns (readLevel limit stop rule.level nesting (ts ++ rest)) e rest
  | .chain hj h => by
    obtain ⟨-, hoperand, -⟩ := hj.levels
    exact h.returns hj hw (hr.mono (by omega))
      (returns_readChain.2 (.inl ⟨hr.chainOp?_eq_none, rfl, rfl⟩))
  | @Derives.unary t ts _ _ _ ht h => by
    have hw := within_map_add.1 hw
    refine (returns_readLevel_of_le (by decide)).2 (returns_readUnary.2 (.inr ⟨_, ts ++ rest, _,
      unaryOp?_eq_some_iff.2 ⟨t, rfl, ht⟩, hw.le h.counts_ne_nil, ?_, rfl⟩))
    exact (returns_readLevel_of_le (by decide)).1 (h.returns hw hr)
  | .primary h => by
    have h := h.returns hw (hr.mono (by decide))
    exact (returns_readLevel_of_le (by decide)).2 ((returns_readLevel_of_le (by decide)).1 h)
  | @Derives.literal t _ ht => by
    obtain ⟨hi, hp, hb, hu⟩ := ht.not_other
    exact returns_of_primary ((returns_readPrimary_literal hi hp hb).2 ⟨_, ht, rfl, rfl⟩) hu
  | .path ht h => by
    refine returns_of_primary
      ((returns_readPrimary_path ht).2 ⟨_, h.returns fun t hm => (hr t hm).1, rfl⟩) ?_
    exact fun op => by rw [ht]; cases op <;> exact nofun
  | @Derives.paren o c ts _ _ ho h hc => by
    have hw := within_map_add.1 hw
    have h₁ : Returns (readLevel limit stop 0 (nesting + 1) (ts ++ c :: rest)) e (c :: rest) :=
      h.returns hw (ends_mark (m := .closeParen) hc)
    have h₂ := returns_of_primary ((returns_readPrimary_paren ho).2
      ⟨hw.le h.counts_ne_nil, _, h₁, drop?_eq_some_iff.2 ⟨c, rfl, hc⟩⟩)
      (fun op => by rw [ho]; cases op <;> exact nofun)
    rwa [List.cons_append, List.append_assoc]
  | @Derives.emptyArray o c ho hc => by
    refine returns_of_primary ((returns_readPrimary_array ho).2
      ⟨by simpa using hw, .inl ⟨drop?_eq_some_iff.2 ⟨c, rfl, hc⟩, rfl⟩⟩) ?_
    exact fun op => by rw [ho]; cases op <;> exact nofun
  | @Derives.array o c ts es _ ho h hc => by
    obtain ⟨hn, hw⟩ := within_cons.1 hw
    have h₁ : Returns (readItems limit stop (nesting + 1) (ts ++ c :: rest)) es rest :=
      h.returns (within_map_add.1 hw) hc
    obtain ⟨t, us, rfl, ht⟩ := h.begins
    have h₂ := returns_of_primary ((returns_readPrimary_array ho).2
      ⟨hn, .inr ⟨ht.drop?_eq_none _, _, h₁, rfl⟩⟩) (fun op => by rw [ho]; cases op <;> exact nofun)
    rwa [List.cons_append, List.append_assoc]

/-- Reading a chain comes to its part `ts` and goes on with the tokens `mid` after that part. -/
theorem Chain.returns {rule operand : Rule} {ops : List BinaryOp} {i nesting : Nat}
    {ts mid rest : List Token} {left e : Expr} {counts : List Nat} (hj : Joins rule operand ops)
    (hw : Within limit nesting counts) (hm : Ends operand.level mid)
    (hr : Returns (readChain limit stop rule.level (nesting + i) left mid) e rest) :
    Chain operand ops i ts left counts →
      Returns (readLevel limit stop rule.level nesting (ts ++ mid)) e rest
  | .operand h => by
    obtain ⟨hl, hoperand, -⟩ := hj.levels
    have h := h.returns hw hm
    rw [hoperand] at h
    exact (returns_readLevel hl).2 ⟨left, mid, h, hr⟩
  | @Chain.join _ _ i ts us t op _ _ _ _ h ht hop h' => by
    obtain ⟨-, hoperand, hops⟩ := hj.levels
    have hlevel := (hops op).1 hop
    obtain ⟨hw, hw'⟩ := within_append.1 hw
    have hw' := within_map_add.1 hw'
    have hright := h'.returns hw' hm
    rw [hoperand] at hright
    rw [List.append_assoc]
    refine h.returns hj hw (ends_op ht (by omega)) (returns_readChain.2 (.inr ?_))
    exact ⟨op, us ++ mid, _, mid, chainOp?_eq_some_iff.2 ⟨t, rfl, ht, hlevel⟩,
      hw'.le h'.counts_ne_nil, hright, hr⟩

theorem Items.returns {nesting : Nat} {ts rest : List Token} {es : List Expr} {counts : List Nat}
    {c : Token} (hw : Within limit nesting counts) (hc : c.kind = .closeBracket) :
    Items ts es counts → Returns (readItems limit stop nesting (ts ++ c :: rest)) es rest
  | .one h => by
    refine returns_readItems.2 ⟨_, c :: rest, h.returns hw (ends_mark (m := .closeBracket) hc),
      .inr ⟨?_, drop?_eq_some_iff.2 ⟨c, rfl, hc⟩, rfl⟩⟩
    simp [drop?, hc, Mark.is]
  | @Items.more ts us t _ _ _ _ h ht hs => by
    obtain ⟨hw, hw'⟩ := within_append.1 hw
    rw [List.append_assoc]
    exact returns_readItems.2 ⟨_, t :: (us ++ c :: rest), h.returns hw (ends_mark (m := .comma) ht),
      .inl ⟨us ++ c :: rest, _, drop?_eq_some_iff.2 ⟨t, rfl, ht⟩, hs.returns hw' hc, rfl⟩⟩

end

end

/-! ## The grammar is unambiguous -/

theorem Derives.unique {ts : List Token} {e e' : Expr} {counts counts' : List Nat}
    (h : Derives .or ts e counts) (h' : Derives .or ts e' counts') : e' = e := by
  obtain ⟨limit, hl⟩ : ∃ limit, Within limit 0 counts ∧ Within limit 0 counts' :=
    ⟨(counts ++ counts').max?.getD 0, by
      rw [← within_append]
      intro n hn
      simpa using List.le_max?_getD_of_mem hn⟩
  have h₁ : Returns (readLevel limit 0 0 0 (ts ++ [])) e [] := h.returns hl.1 ends_nil
  have h₂ : Returns (readLevel limit 0 0 0 (ts ++ [])) e' [] := h'.returns hl.2 ends_nil
  exact (h₂.unique h₁).1

/-! ## Tokens as a whole -/

theorem ofTokens_eq_ok_iff_returns {stop : Nat} {ts : List Token} {e : Expr} :
    ofTokens stop ts = .ok e ↔ Returns (readLevel maxNesting stop 0 0 ts) e [] := by
  unfold ofTokens
  split
  · exact ⟨nofun, fun ⟨hr, _⟩ => absurd hr (Nat.not_lt_zero _)⟩
  · constructor
    · intro h
      split at h
      · cases h
      · rename_i e' rest he
        split at h
        · rename_i hr
          cases h
          obtain ⟨rest, hl⟩ := rest
          obtain rfl := List.isEmpty_iff.1 hr
          exact ⟨hl, he⟩
        · cases h
    · rintro ⟨hl, he⟩
      simp [he]

/-- Tokens are read as an expression exactly if they derive it by the first rule of the grammar with
no count above 128, and there is no other expression that they derive. -/
theorem ofTokens_eq_ok_iff (stop : Nat) (ts : List Token) (e : Expr) :
    (ofTokens stop ts = .ok e ↔ ∃ counts, Derives .or ts e counts ∧ ∀ n ∈ counts, n ≤ 128) ∧
      ∀ e' counts counts', Derives .or ts e counts → Derives .or ts e' counts' → e' = e := by
  refine ⟨?_, fun e' counts counts' h h' => h.unique h'⟩
  rw [ofTokens_eq_ok_iff_returns]
  constructor
  · intro h
    obtain ⟨used, counts, hu, hd, hw⟩ :=
      readLevel_sound maxNesting stop .or 0 ts (Nat.zero_le _) (Nat.zero_le _) h
    rw [List.append_nil] at hu
    exact ⟨counts, hu ▸ hd, fun n hn => by simpa [maxNesting] using hw n hn⟩
  · rintro ⟨counts, hd, hw⟩
    have hw : Within maxNesting 0 counts := fun n hn => by simpa [maxNesting] using hw n hn
    have h : Returns (readLevel maxNesting stop 0 0 (ts ++ [])) e [] := hd.returns hw ends_nil
    rwa [List.append_nil] at h

/-- Operators of all levels without parentheses, from the one that binds least on. -/
def ladder : Expr :=
  .binary .or (.path ["a"]) (.binary .and (.path ["b"]) (.binary .eq (.path ["c"])
    (.binary .lt (.path ["d"]) (.binary .sub
      (.binary .sub (.path ["e"]) (.binary .mul (.path ["f"]) (.path ["g"])))
      (.unary .not (.path ["h"]))))))

theorem derives_ladder :
    ∃ ts counts, Token.tokenize "a||b&&c==d<e-f*g-!h".toList = .ok ts ∧
      Derives .or ts ladder counts ∧ (∀ n ∈ counts, n ≤ 128) ∧
      ∀ e counts', Derives .or ts e counts' → e = ladder := by
  have h : parse "a||b&&c==d<e-f*g-!h".toList = .ok ladder := by with_unfolding_all rfl
  unfold parse at h
  split at h
  · cases h
  · rename_i ts hts
    obtain ⟨hread, hunique⟩ := ofTokens_eq_ok_iff _ ts ladder
    obtain ⟨counts, hd, hcounts⟩ := hread.1 h
    exact ⟨ts, counts, hts, hd, hcounts, fun e counts' h' => hunique e counts counts' hd h'⟩

end Stencil.Expr
