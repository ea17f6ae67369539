import Mathlib.Tactic.ByContra
import Stencil.Expr.Eval
import Stencil.Proofs.Expr.Reading

/-!
# Texts that spell expressions

`Splits` says that a text is cut into given tokens, whatever the tokens after it are, and `Spells`
that these tokens derive an expression. Both are put together from left to right. The limit on the
nesting is a parameter, as it is for the readers.
-/

namespace Stencil

open Text

/-! ## Texts that are cut into tokens -/

namespace Token

/-- The text `cs` before `rest` is cut into the tokens `ts`. -/
def Splits (position : Nat) (cs rest : List Char) (ts : List Token) : Prop :=
  tokenizeFrom position (cs ++ rest) =
    (tokenizeFrom (position + utf8Length cs) rest).map (ts ++ ·)

theorem splits_nil (rest : List Char) (position : Nat) : Splits position [] rest [] := by
  show tokenizeFrom position rest = (tokenizeFrom position rest).map ([] ++ ·)
  cases tokenizeFrom position rest <;> rfl

theorem Splits.append {position : Nat} {cs ds rest : List Char} {ts us : List Token}
    (h : Splits position cs (ds ++ rest) ts)
    (h' : Splits (position + utf8Length cs) ds rest us) :
    Splits position (cs ++ ds) rest (ts ++ us) := by
  rw [Splits, List.append_assoc, h, h', utf8Length_append, Nat.add_assoc]
  cases tokenizeFrom (position + (utf8Length cs + utf8Length ds)) rest with
  | error e => rfl
  | ok vs => exact congrArg Except.ok (List.append_assoc ts us vs).symm

theorem splits_token {c : Char} {cs rest : List Char} {kind : TokenKind} (hb : isBlank c = false)
    (h : readToken c (cs ++ rest) = .ok ⟨kind, c :: cs, rest⟩) (position : Nat) :
    Splits position (c :: cs) rest [⟨kind, position, c :: cs⟩] := by
  rw [Splits, List.cons_append, tokenizeFrom, hb]
  simp only [Bool.false_eq_true, if_false]
  split
  · rename_i hf
    cases h.symm.trans hf
  · rename_i cut hf
    cases h.symm.trans hf
    dsimp only
    cases tokenizeFrom (position + utf8Length (c :: cs)) rest <;> rfl

/-- A symbol of one character that is not continued by an equals sign. -/
theorem readToken_symbol {c : Char} {kind : TokenKind} (hk : symbol₁ c = some kind)
    {rest : List Char} (h : c ∈ ['!', '<', '>'] → rest.head? ≠ some '=') :
    readToken c rest = .ok ⟨kind, [c], rest⟩ := by
  have hlong : rest.head?.bind (symbol₂ c) = none := by
    cases rest with
    | nil => rfl
    | cons d rest =>
      show symbol₂ c d = none
      unfold symbol₂
      split <;> first | rfl | simp_all [symbol₁]
  have hclass : c.isDigit = false ∧ (c = '\x27' || c = '"') = false ∧
      beginsIdentifier c = false := by
    unfold symbol₁ at hk
    split at hk <;> first | cases hk; done | exact ⟨rfl, rfl, rfl⟩
  obtain ⟨hdigit, hquote, hword⟩ := hclass
  simp [readToken, readSymbol, hdigit, hquote, hword, hlong, hk]

theorem isBlank_of_symbol {c : Char} {kind : TokenKind} (hk : symbol₁ c = some kind) :
    isBlank c = false := by
  unfold symbol₁ at hk
  split at hk <;> first | cases hk; done | rfl

theorem splits_symbol {c : Char} {kind : TokenKind} (hk : symbol₁ c = some kind)
    {rest : List Char} (h : c ∈ ['!', '<', '>'] → rest.head? ≠ some '=') (position : Nat) :
    Splits position [c] rest [⟨kind, position, [c]⟩] :=
  splits_token (isBlank_of_symbol hk) (readToken_symbol hk h) position

/-- A symbol that no equals sign continues. -/
theorem splits_mark {c : Char} {kind : TokenKind} (hk : symbol₁ c = some kind)
    (hc : c ∉ ['!', '<', '>']) (rest : List Char) (position : Nat) :
    Splits position [c] rest [⟨kind, position, [c]⟩] :=
  splits_symbol hk (fun h => absurd h hc) position

theorem splits_blank {c : Char} (h : isBlank c = true) (rest : List Char) (position : Nat) :
    Splits position [c] rest [] := by
  rw [Splits, List.cons_append, tokenizeFrom, if_pos h]
  show tokenizeFrom (position + utf8Length [c]) rest = _
  cases tokenizeFrom (position + utf8Length [c]) rest <;> rfl

/-- The text continues neither a word nor a number nor a path. -/
def EndsWord (rest : List Char) : Prop :=
  ∀ c ∈ rest.head?, continuesIdentifier c = false ∧ c ≠ '.'

theorem endsWord_nil : EndsWord [] := nofun

theorem endsWord_cons {c : Char} {cs : List Char} :
    EndsWord (c :: cs) ↔ continuesIdentifier c = false ∧ c ≠ '.' := by
  simp [EndsWord]

theorem continuesIdentifier_of_isDigit {c : Char} (h : c.isDigit = true) :
    continuesIdentifier c = true := by
  simp [continuesIdentifier, Char.isAlphanum, h]

theorem EndsWord.isDigit_eq_false {rest : List Char} (h : EndsWord rest) :
    ∀ c ∈ rest.head?, c.isDigit = false := by
  intro c hc
  by_contra hd
  have := (h c hc).1
  rw [continuesIdentifier_of_isDigit (by simpa using hd)] at this
  cases this

/-- No character of a word or a number is blank. -/
theorem isBlank_of_continuesIdentifier {c : Char} (h : continuesIdentifier c = true) :
    isBlank c = false := by
  by_contra hb
  simp only [isBlank, Bool.not_eq_false, Bool.or_eq_true, decide_eq_true_eq] at hb
  rcases hb with (((rfl | rfl) | rfl) | rfl) | rfl <;> cases h

/-- The characters of a class, up to where a text has one that is not in it. -/
theorem span_append {p : Char → Bool} {cs rest : List Char} (hcs : ∀ c ∈ cs, p c = true)
    (hr : ∀ c ∈ rest.head?, p c = false) :
    (cs ++ rest).takeWhile p = cs ∧ (cs ++ rest).dropWhile p = rest := by
  rw [List.takeWhile_append_of_pos hcs, List.dropWhile_append_of_pos hcs]
  cases rest with
  | nil => simp
  | cons c rest => simp [hr c rfl]

/-- Digits are an integer of 64 bits, if they have the value of one. -/
theorem splits_digits {c : Char} {cs rest : List Char} {n : Int64}
    (hd : ∀ d ∈ c :: cs, d.isDigit = true) (hn : int64? (Number.ofDigits (c :: cs)) = some n)
    (h : EndsWord rest) (position : Nat) :
    Splits position (c :: cs) rest [⟨.int n, position, c :: cs⟩] := by
  have hc := hd c List.mem_cons_self
  refine splits_token (isBlank_of_continuesIdentifier (continuesIdentifier_of_isDigit hc)) ?_
    position
  obtain ⟨htake, hdrop⟩ := span_append hd h.isDigit_eq_false
  have hfraction : splitFraction rest = ([], rest) := by
    unfold splitFraction
    split
    · exact absurd rfl (h '.' rfl).2
    · rfl
  have hexponent : splitExponent rest = ([], rest) := by
    cases rest with
    | nil => rfl
    | cons d rest =>
      have he : d ≠ 'e' := by
        rintro rfl
        cases (h 'e' rfl).1
      have hE : d ≠ 'E' := by
        rintro rfl
        cases (h 'E' rfl).1
      simp [splitExponent, he, hE]
  rw [readToken, if_pos hc, ← List.cons_append]
  unfold readNumber
  rw [htake, hdrop, hfraction]
  dsimp only
  rw [hexponent]
  simp [hn]

theorem continuesIdentifier_of_beginsIdentifier {c : Char} (h : beginsIdentifier c = true) :
    continuesIdentifier c = true := by
  simp only [beginsIdentifier, continuesIdentifier, Char.isAlphanum, Bool.or_eq_true] at h ⊢
  exact h.imp_left .inl

theorem isDigit_of_beginsIdentifier {c : Char} (h : beginsIdentifier c = true) :
    c.isDigit = false := by
  simp only [beginsIdentifier, Bool.or_eq_true, decide_eq_true_eq] at h
  rcases h with h | rfl
  · change (decide (c.val ≥ 65 ∧ c.val ≤ 90) || (c.val ≥ 97 && c.val ≤ 122)) = true at h
    simp only [Bool.or_eq_true, Bool.and_eq_true, decide_eq_true_eq] at h
    simp only [Char.isDigit, Bool.and_eq_false_iff, decide_eq_false_iff_not]
    grind
  · rfl

/-- A word, up to where nothing continues it. -/
theorem splits_word {c : Char} {cs rest : List Char} (hc : beginsIdentifier c = true)
    (hcs : ∀ d ∈ cs, continuesIdentifier d = true)
    (h : ∀ d ∈ rest.head?, continuesIdentifier d = false) (position : Nat) :
    Splits position (c :: cs) rest [⟨ofWord (c :: cs), position, c :: cs⟩] := by
  have hdigit := isDigit_of_beginsIdentifier hc
  have hword := continuesIdentifier_of_beginsIdentifier hc
  have hquote : ¬ (c = '\x27' || c = '"') = true := by
    intro hq
    simp only [Bool.or_eq_true, decide_eq_true_eq] at hq
    rcases hq with rfl | rfl <;> cases hc
  obtain ⟨htake, hdrop⟩ := span_append hcs h
  refine splits_token (isBlank_of_continuesIdentifier hword) ?_ position
  rw [readToken, if_neg (by simp [hdigit]), if_neg hquote, if_pos hc, htake, hdrop]

/-- A string, of which the text after the opening quote is read up to the closing one. -/
theorem splits_quoted {quote : Char} {value text rest : List Char}
    (hq : quote = '\x27' ∨ quote = '"')
    (h : readQuoted quote (text ++ rest) = some (value, text, rest)) (position : Nat) :
    Splits position (quote :: text) rest
      [⟨.str (String.ofList value), position, quote :: text⟩] := by
  have hread : readToken quote (text ++ rest) =
      .ok ⟨.str (String.ofList value), quote :: text, rest⟩ := by
    rcases hq with rfl | rfl <;> simp [readToken, readString, h]
  exact splits_token (by rcases hq with rfl | rfl <;> rfl) hread position

/-- An operator that is not continued by an equals sign. -/
theorem splits_op (op : BinaryOp) {rest : List Char} (h : rest.head? ≠ some '=')
    (position : Nat) :
    Splits position op.symbol.toList rest [⟨.op op, position, op.symbol.toList⟩] := by
  cases op with
  | eq | ne | le | ge | and | or => exact splits_token rfl rfl position
  | add | sub | mul | div | rem | lt | gt => exact splits_symbol rfl (fun _ => h) position

theorem endsWord_op (op : BinaryOp) (rest : List Char) :
    EndsWord (op.symbol.toList ++ rest) := by
  cases op <;> exact endsWord_cons.2 (by decide)

end Token

/-! ## Texts of expressions -/

namespace Expr

open Token

theorem Rule.level_le (rule : Rule) : rule.level ≤ primary.level := by
  cases rule <;> decide

/-- Behind each rule but the last stands one whose expressions it derives too: as a chain of one
operand, or as an operand without unary operators. -/
theorem Rule.exists_next {rule : Rule} (h : rule.level < primary.level) :
    ∃ next : Rule, next.level = rule.level + 1 ∧
      ∀ {ts e counts}, Derives next ts e counts → Derives rule ts e counts := by
  by_cases hl : rule.level < BinaryOp.levels
  · obtain ⟨operand, ops, hj⟩ := exists_joins hl
    obtain ⟨-, hoperand, -⟩ := hj.levels
    exact ⟨operand, hoperand, fun h => .chain hj (.operand h)⟩
  · obtain rfl : rule = .unary :=
      level_injective (Nat.le_antisymm (Nat.le_of_lt_succ h) (Nat.le_of_not_lt hl))
    exact ⟨.primary, rfl, .primary⟩

/-- What a rule derives is derived by each rule before it. -/
theorem Derives.mono {rule rule' : Rule} {ts : List Token} {e : Expr} {counts : List Nat}
    (h : Derives rule ts e counts) (hle : rule'.level ≤ rule.level) :
    Derives rule' ts e counts := by
  obtain ⟨n, hn⟩ := Nat.exists_eq_add_of_le hle
  induction n generalizing rule' with
  | zero => exact Rule.level_injective hn ▸ h
  | succ n ih =>
    have hlast := rule.level_le
    obtain ⟨next, hnext, hderives⟩ := rule'.exists_next (by omega)
    exact hderives (ih (by omega) (by omega))

/-- The text is cut into tokens that derive an expression by a rule, with no count above the
limit. -/
def Spells (limit nesting : Nat) (rule : Rule) (cs : List Char) (e : Expr) : Prop :=
  ∀ rest position, EndsWord rest → ∃ ts counts, Derives rule ts e counts ∧
    Within limit nesting counts ∧ Splits position cs rest ts

/-- The text is cut into tokens that are a chain of operands by a rule; `i` is the index of its last
operand. -/
def SpellsChain (limit nesting : Nat) (rule : Rule) (ops : List BinaryOp) (i : Nat)
    (cs : List Char) (e : Expr) : Prop :=
  ∀ rest position, EndsWord rest → ∃ ts counts, Chain rule ops i ts e counts ∧
    Within limit nesting counts ∧ Splits position cs rest ts

/-- The text is cut into tokens that are the items of an array. -/
def SpellsItems (limit nesting : Nat) (cs : List Char) (es : List Expr) : Prop :=
  ∀ rest position, EndsWord rest → ∃ ts counts, Items ts es counts ∧
    Within limit nesting counts ∧ Splits position cs rest ts

section

variable {limit nesting i : Nat} {rule rule' : Rule} {ops : List BinaryOp} {cs ds : List Char}
  {e e' : Expr} {es : List Expr}

theorem Spells.operand (h : Spells limit nesting rule cs e) :
    SpellsChain limit nesting rule ops 0 cs e := by
  intro rest position hr
  obtain ⟨ts, counts, hd, hw, hs⟩ := h rest position hr
  exact ⟨ts, counts, .operand hd, hw, hs⟩

theorem SpellsChain.spells (h : SpellsChain limit nesting rule' ops i cs e)
    (hj : Joins rule rule' ops) : Spells limit nesting rule cs e := by
  intro rest position hr
  obtain ⟨ts, counts, hc, hw, hs⟩ := h rest position hr
  exact ⟨ts, counts, .chain hj hc, hw, hs⟩

theorem Spells.mono (h : Spells limit nesting rule cs e) (hle : rule'.level ≤ rule.level) :
    Spells limit nesting rule' cs e := by
  intro rest position hr
  obtain ⟨ts, counts, hd, hw, hs⟩ := h rest position hr
  exact ⟨ts, counts, hd.mono hle, hw, hs⟩

/-- A space before an expression. -/
theorem Spells.space_before (h : Spells limit nesting rule cs e) :
    Spells limit nesting rule (' ' :: cs) e := by
  intro rest position hr
  obtain ⟨ts, counts, hd, hw, hs⟩ := h rest (position + utf8Length [' ']) hr
  exact ⟨ts, counts, hd, hw, (splits_blank rfl (cs ++ rest) position).append hs⟩

/-- A space after an expression. -/
theorem Spells.space_after (h : Spells limit nesting rule cs e) :
    Spells limit nesting rule (cs ++ [' ']) e := by
  intro rest position _
  obtain ⟨ts, counts, hd, hw, hs⟩ := h ([' '] ++ rest) position (endsWord_cons.2 (by decide))
  refine ⟨ts, counts, hd, hw, ?_⟩
  simpa using hs.append (splits_blank rfl rest (position + utf8Length cs))

/-! ### Operands -/

theorem spells_digits {c : Char} {n : Int64} (hd : ∀ d ∈ c :: cs, d.isDigit = true)
    (hv : int64? (Number.ofDigits (c :: cs)) = some n) (hn : nesting ≤ limit) :
    Spells limit nesting .primary (c :: cs) (.literal (.int n)) := by
  intro rest position hr
  exact ⟨_, [0], .literal (.int n), by simpa using hn, splits_digits hd hv hr position⟩

theorem spells_one (hn : nesting ≤ limit) :
    Spells limit nesting .primary ['1'] (.literal (.int 1)) :=
  spells_digits (List.all_eq_true.1 rfl) rfl hn

/-- A word that is a literal. -/
theorem spells_word {c : Char} {v : Value} (hc : beginsIdentifier c = true)
    (hcs : ∀ d ∈ cs, continuesIdentifier d = true) (hv : Literal (ofWord (c :: cs)) v)
    (hn : nesting ≤ limit) : Spells limit nesting .primary (c :: cs) (.literal v) := by
  intro rest position hr
  exact ⟨_, [0], .literal hv, by simpa using hn,
    splits_word hc hcs (fun d hd => (hr d hd).1) position⟩

theorem spells_quoted {quote : Char} {value : List Char} (hq : quote = '\x27' ∨ quote = '"')
    (h : ∀ rest, readQuoted quote (cs ++ rest) = some (value, cs, rest)) (hn : nesting ≤ limit) :
    Spells limit nesting .primary (quote :: cs) (.literal (.str (String.ofList value))) := by
  intro rest position _
  exact ⟨_, [0], .literal (.str _), by simpa using hn, splits_quoted hq (h rest) position⟩

/-! ### Operators -/

/-- One more operator. -/
theorem SpellsChain.join {op : BinaryOp} (h : SpellsChain limit nesting rule ops i cs e)
    (h' : Spells limit (nesting + (i + 1)) rule ds e') (hop : op ∈ ops)
    (hds : ∀ rest, (ds ++ rest).head? ≠ some '=') :
    SpellsChain limit nesting rule ops (i + 1) (cs ++ (op.symbol.toList ++ ds))
      (.binary op e e') := by
  intro rest position hr
  obtain ⟨ts, counts, hc, hw, hs⟩ := h (op.symbol.toList ++ ds ++ rest) position (by
    rw [List.append_assoc]
    exact endsWord_op op _)
  obtain ⟨us, counts', hd, hw', hs'⟩ :=
    h' rest (position + utf8Length cs + utf8Length op.symbol.toList) hr
  have hs'' := (splits_op op (hds rest) (position + utf8Length cs)).append hs'
  exact ⟨_, _, hc.join rfl hop hd, within_append.2 ⟨hw, within_map_add.2 hw'⟩, hs.append hs''⟩

/-- An operator before an operand. -/
theorem Spells.unary (op : UnaryOp) (h : Spells limit (nesting + 1) .unary cs e)
    (hcs : ∀ rest, (cs ++ rest).head? ≠ some '=') :
    Spells limit nesting .unary (op.symbol.toList ++ cs) (.unary op e) := by
  intro rest position hr
  obtain ⟨ts, counts, hd, hw, hs⟩ := h rest (position + utf8Length op.symbol.toList) hr
  have hop : Splits position op.symbol.toList (cs ++ rest)
      [⟨op.kind, position, op.symbol.toList⟩] := by
    cases op <;> exact splits_symbol rfl (fun _ => hcs rest) position
  exact ⟨_, _, .unary rfl hd, within_map_add.2 hw, hop.append hs⟩

/-! ### Brackets -/

theorem Spells.paren (h : Spells limit (nesting + 1) .or cs e) :
    Spells limit nesting .primary ('(' :: (cs ++ [')'])) e := by
  intro rest position _
  obtain ⟨ts, counts, hd, hw, hs⟩ := h ([')'] ++ rest) (position + utf8Length ['('])
    (endsWord_cons.2 (by decide))
  have hopen := splits_mark (c := '(') rfl (by decide) (cs ++ [')'] ++ rest) position
  have hclose := splits_mark (c := ')') rfl (by decide) rest
    (position + utf8Length ['('] + utf8Length cs)
  exact ⟨_, _, .paren rfl hd rfl, within_map_add.2 hw, hopen.append (hs.append hclose)⟩

theorem Spells.item (h : Spells limit nesting .or cs e) : SpellsItems limit nesting cs [e] := by
  intro rest position hr
  obtain ⟨ts, counts, hd, hw, hs⟩ := h rest position hr
  exact ⟨ts, counts, .one hd, hw, hs⟩

/-- One more item, before the others. -/
theorem SpellsItems.cons (h : Spells limit nesting .or cs e)
    (hs : SpellsItems limit nesting ds es) :
    SpellsItems limit nesting (cs ++ (',' :: ' ' :: ds)) (e :: es) := by
  intro rest position hr
  obtain ⟨ts, counts, hd, hw, hcs⟩ := h (',' :: ' ' :: ds ++ rest) position
    (endsWord_cons.2 (by decide))
  obtain ⟨us, counts', hi, hw', hds⟩ :=
    hs rest (position + utf8Length cs + utf8Length [','] + utf8Length [' ']) hr
  have hcomma := splits_mark (c := ',') rfl (by decide) ([' '] ++ ds ++ rest)
    (position + utf8Length cs)
  have hspace := splits_blank (c := ' ') rfl (ds ++ rest)
    (position + utf8Length cs + utf8Length [','])
  exact ⟨_, _, .more hd rfl hi, within_append.2 ⟨hw, hw'⟩,
    hcs.append (hcomma.append (hspace.append hds))⟩

theorem SpellsItems.array (hn : nesting + 1 ≤ limit) (h : SpellsItems limit (nesting + 1) cs es) :
    Spells limit nesting .primary ('[' :: (cs ++ [']'])) (.array es) := by
  intro rest position _
  obtain ⟨ts, counts, hi, hw, hs⟩ := h ([']'] ++ rest) (position + utf8Length ['['])
    (endsWord_cons.2 (by decide))
  have hopen := splits_mark (c := '[') rfl (by decide) (cs ++ [']'] ++ rest) position
  have hclose := splits_mark (c := ']') rfl (by decide) rest
    (position + utf8Length ['['] + utf8Length cs)
  exact ⟨_, _, .array rfl hi rfl, within_cons.2 ⟨hn, within_map_add.2 hw⟩,
    hopen.append (hs.append hclose)⟩

theorem spells_emptyArray (hn : nesting + 1 ≤ limit) :
    Spells limit nesting .primary ['[', ']'] (.array []) := by
  intro rest position _
  have hopen := splits_mark (c := '[') rfl (by decide) ([']'] ++ rest) position
  have hclose := splits_mark (c := ']') rfl (by decide) rest
    (position + utf8Length ['['])
  exact ⟨_, [1], .emptyArray rfl rfl, by simpa using hn, hopen.append hclose⟩

/-! ### Whole texts -/

/-- A text that spells an expression is read as that expression. -/
theorem Spells.parse (h : Spells maxNesting 0 .or cs e) : parse cs = .ok e := by
  obtain ⟨ts, counts, hd, hw, hs⟩ := h [] 0 endsWord_nil
  have hts : tokenize cs = .ok ts := by
    rw [Splits, List.append_nil, tokenizeFrom] at hs
    rw [tokenize, hs]
    exact congrArg Except.ok (List.append_nil ts)
  have hr : Returns (readLevel maxNesting (utf8Length cs) 0 0 (ts ++ [])) e [] :=
    hd.returns hw ends_nil
  rw [List.append_nil] at hr
  rw [Expr.parse, hts]
  exact ofTokens_eq_ok_iff_returns.2 hr

theorem parse_of_spells (h : Spells maxNesting 0 .or cs e) :
    Expression.parse (String.ofList cs) = .ok ⟨String.ofList cs, e⟩ := by
  rw [Expression.parse, String.toList_ofList, h.parse]

end

end Expr

end Stencil
