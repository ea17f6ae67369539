import Stencil.Expr.Cursor
import Stencil.Proofs.Expr.Tokens

/-!
# Tokens by bytes are tokens by characters

The lexer that walks over bytes finds the tokens of `tokenize` and asks for no slice that cannot be
taken (`lexemesFrom_eq`). Its place is always a boundary, `utf8Length before` of what it has left
behind. There it sees the first byte of a character, which tells the classes of ASCII characters,
and it looks further ahead only behind ASCII characters.
-/

namespace Stencil

open Text

namespace Token

/-- The token as a range of byte offsets. -/
def lexeme (t : Token) : Lexeme := ⟨t.kind, t.position, t.stop⟩

/-! ## Classes of ASCII characters -/

theorem asciiOnly_isDigit : AsciiOnly Char.isDigit := fun _ h => (eq_false_of_le h).1

theorem asciiOnly_continuesIdentifier : AsciiOnly continuesIdentifier :=
  fun _ h => (eq_false_of_le h).2.2.1

theorem ne_of_le {c d : Char} (hc : 128 ≤ c.toNat) (hd : d.toNat < 128) : c ≠ d := by
  rintro rfl
  omega

theorem asciiOnly_eq {d : Char} (hd : d.toNat < 128) : AsciiOnly (· = d) :=
  fun _ hc => decide_eq_false (ne_of_le hc hd)

theorem AsciiOnly.or {p q : Char → Bool} (hp : AsciiOnly p) (hq : AsciiOnly q) :
    AsciiOnly fun c => p c || q c :=
  fun c hc => Bool.or_eq_false_iff.2 ⟨hp c hc, hq c hc⟩

theorem asciiOnly_beginsExponent : AsciiOnly Lexeme.beginsExponent :=
  AsciiOnly.or (asciiOnly_eq (by decide)) (asciiOnly_eq (by decide))

theorem asciiOnly_isSign : AsciiOnly Lexeme.isSign :=
  AsciiOnly.or (asciiOnly_eq (by decide)) (asciiOnly_eq (by decide))

theorem symbol₁_of_le {c : Char} (h : 128 ≤ c.toNat) : symbol₁ c = none := by
  unfold symbol₁
  split <;> first | rfl | exact absurd h (by decide)

theorem symbol₂_of_le {c d : Char} (h : 128 ≤ c.toNat ∨ 128 ≤ d.toNat) : symbol₂ c d = none := by
  unfold symbol₂
  split <;> first | rfl | exact absurd h (by decide)

end Token

namespace Lexeme

open Token

variable (before cs : List Char)

/-! ## Looking behind an ASCII character -/

theorem utf8Length_append_ascii {c : Char} (hc : c.toNat < 128) :
    utf8Length (before ++ [c]) = utf8Length before + 1 := by
  rw [utf8Length_append, utf8Length_cons, utf8Size_of_lt hc, utf8Length_nil]

theorem peek_succ {c : Char} (hc : c.toNat < 128) :
    peek (before ++ c :: cs) (utf8Length before + 1) = cs.head?.map lead := by
  have h := peek_utf8Length (before ++ [c]) cs
  rwa [List.append_assoc, utf8Length_append_ascii before hc] at h

theorem any_peek_succ {c : Char} (hc : c.toNat < 128) {p : Char → Bool} (hp : AsciiOnly p) :
    (peek (before ++ c :: cs) (utf8Length before + 1)).any p = cs.head?.any p := by
  have h := hp.any_peek (before ++ [c]) cs
  rwa [List.append_assoc, utf8Length_append_ascii before hc] at h

theorem runEnd_succ {c : Char} (hc : c.toNat < 128) {p : Char → Bool} (hp : AsciiOnly p) :
    runEnd p (before ++ c :: cs) (utf8Length before + 1) =
      utf8Length (before ++ c :: cs.takeWhile p) := by
  have h := hp.runEnd_eq (before ++ [c]) cs
  rwa [List.append_assoc, List.append_assoc, utf8Length_append_ascii before hc] at h

/-! ## Numbers -/

theorem fractionEnd_eq :
    fractionEnd (before ++ cs) (utf8Length before) =
      utf8Length (before ++ (splitFraction cs).1) := by
  have hpoint := (asciiOnly_eq (d := '.') (by decide)).any_peek before cs
  have hnext (ds : List Char) := any_peek_succ before ds (c := '.') (by decide) asciiOnly_isDigit
  rw [fractionEnd, hpoint]
  fun_cases splitFraction cs with
  | case1 c cs hc =>
    rw [hnext, runEnd_succ before (c :: cs) (by decide) asciiOnly_isDigit]
    simp [hc]
  | case2 c cs hc =>
    rw [hnext]
    simp [hc]
  | case3 cs hcs =>
    rw [List.append_nil, if_neg]
    cases cs with
    | nil => exact Bool.false_ne_true
    | cons c cs =>
      by_cases hc : c = '.'
      · subst hc
        cases cs with
        | nil => simp [hnext]
        | cons d cs => exact absurd rfl (hcs d cs)
      · simp [hc]

/-- The digits of an exponent part begin behind its letter and its sign. -/
theorem exponentDigits_eq {c : Char} (hc : c.toNat < 128) :
    exponentDigits (before ++ c :: cs) (utf8Length before) =
      utf8Length (before ++ c :: (splitSign cs).1) := by
  have hletter := utf8Length_append_ascii before hc
  rw [exponentDigits, any_peek_succ before cs hc asciiOnly_isSign, ← hletter]
  fun_cases splitSign cs with
  | case1 d ds hd =>
    have hsign := utf8Length_append_ascii (before ++ [c]) (asciiOnly_isSign.lt hd)
    rw [List.append_assoc] at hsign
    rw [List.head?_cons, Option.any_some, isSign, if_pos hd]
    exact hsign.symm
  | case2 d ds hd =>
    rw [List.head?_cons, Option.any_some, isSign, if_neg hd]
    rfl
  | case3 => rfl

theorem exponentEnd_eq :
    exponentEnd (before ++ cs) (utf8Length before) =
      utf8Length (before ++ (splitExponent cs).1) := by
  rw [exponentEnd, asciiOnly_beginsExponent.any_peek]
  cases cs with
  | nil => simp [splitExponent]
  | cons c cs =>
    rw [List.head?_cons, Option.any_some, splitExponent]
    cases hletter : beginsExponent c with
    | false =>
      rw [Bool.false_and, if_neg Bool.false_ne_true, if_neg, List.append_nil]
      rw [← beginsExponent, hletter]
      exact Bool.false_ne_true
    | true =>
      have hc := asciiOnly_beginsExponent.lt hletter
      have hsource : before ++ c :: cs = (before ++ c :: (splitSign cs).1) ++ (splitSign cs).2 := by
        rw [List.append_assoc, List.cons_append, splitSign_eq]
      have hdigit := asciiOnly_isDigit.any_peek (before ++ c :: (splitSign cs).1) (splitSign cs).2
      have hrun := asciiOnly_isDigit.runEnd_eq (before ++ c :: (splitSign cs).1) (splitSign cs).2
      rw [← hsource] at hdigit hrun
      rw [exponentDigits_eq before cs hc, hdigit, hrun, ← beginsExponent, hletter]
      split <;> simp

/-- What is cut off behind `before`, in terms of byte offsets. -/
def cutAt (r : Except SyntaxFault Cut) : Except SyntaxError (TokenKind × Nat) :=
  match r with
  | .ok cut => .ok (cut.kind, utf8Length (before ++ cut.text))
  | .error fault => .error ⟨utf8Length before, fault⟩

/-- The float of a number is that of its parts. -/
theorem floatOf_eq {digits : List Char} (hd : ∀ d ∈ digits, d.isDigit = true) (cs ds : List Char) :
    floatOf (digits ++ (splitFraction cs).1 ++ (splitExponent ds).1) =
      Number.nearestFloat (Number.ofDigits (digits ++ (splitFraction cs).1.tail))
        (exponentValue (splitExponent ds).1 - (splitFraction cs).1.tail.length) := by
  obtain ⟨htake, hfraction, hexponent⟩ := split_number hd cs ds endsWord_nil
  simp only [List.append_nil] at htake hfraction hexponent
  simp only [floatOf, List.append_assoc, htake, hfraction, hexponent]

theorem number_eq (c : Char) :
    number (before ++ c :: cs) (utf8Length before) =
      some (cutAt before (readNumber (c :: cs))) := by
  have hall : ∀ d ∈ (c :: cs).takeWhile Char.isDigit, d.isDigit = true :=
    fun d hd => List.mem_takeWhile_imp (p := Char.isDigit) hd
  have hrun := asciiOnly_isDigit.runEnd_eq before (c :: cs)
  have hdigits := List.takeWhile_append_dropWhile (p := Char.isDigit) (l := c :: cs)
  simp only [readNumber]
  generalize (c :: cs).takeWhile Char.isDigit = digits at *
  generalize (c :: cs).dropWhile Char.isDigit = ds at *
  have hfraction := splitFraction_eq ds
  have hfloat := floatOf_eq hall ds (splitFraction ds).2
  have hexponent := splitExponent_eq (splitFraction ds).2
  have hfractionEnd := fractionEnd_eq (before ++ digits) ds
  have hexponentEnd :=
    exponentEnd_eq (before ++ digits ++ (splitFraction ds).1) (splitFraction ds).2
  generalize (splitFraction ds).1 = fraction at *
  generalize (splitFraction ds).2 = ds' at *
  generalize (splitExponent ds').1 = exponent at *
  generalize (splitExponent ds').2 = rest at *
  have hslice := slice?_append before (digits ++ fraction ++ exponent) rest
  subst hexponent hfraction
  simp only [← hdigits, List.append_assoc] at *
  simp only [number, hrun, hfractionEnd, hexponentEnd, hslice, Option.map_some]
  have hlength : utf8Length (before ++ (digits ++ (fraction ++ exponent))) =
      utf8Length (before ++ digits) ↔ (fraction.isEmpty && exponent.isEmpty) = true := by
    simp only [utf8Length_append, Bool.and_eq_true, List.isEmpty_iff]
    constructor
    · intro h
      constructor <;> by_contra hne <;> have := utf8Length_pos hne <;> omega
    · rintro ⟨rfl, rfl⟩
      rfl
  by_cases hparts : (fraction.isEmpty && exponent.isEmpty) = true
  · rw [if_pos (hlength.2 hparts), if_pos hparts]
    simp only [Bool.and_eq_true, List.isEmpty_iff] at hparts
    obtain ⟨rfl, rfl⟩ := hparts
    simp only [List.append_nil, integerOf]
    cases int64? (Number.ofDigits digits) <;> rfl
  · rw [if_neg (mt hlength.1 hparts), if_neg hparts, hfloat]
    simp [cutAt]

/-! ## Strings, words and symbols -/

theorem scanString_eq (quote : Char) (hq : quote.toNat < 128) (offset : Nat) :
    scanString quote offset cs =
      (readQuoted quote cs).map fun p => (p.1, offset + utf8Length p.2.1) := by
  fun_induction scanString quote offset cs with
  | case1 => rfl
  | case2 => rfl
  | case3 offset c cs ih =>
    rw [ih, readQuoted, Option.map_map, Option.map_map]
    congr 1
    funext p
    simp [Nat.add_assoc]
  | case4 offset cs hnil hcons =>
    rw [readQuoted_cons (ne_of_not_escape hnil hcons), if_pos rfl]
    simp [utf8Size_of_lt hq]
  | case5 offset c cs hnil hcons hc ih =>
    rw [ih, readQuoted_cons (ne_of_not_escape hnil hcons), if_neg hc, Option.map_map,
      Option.map_map]
    congr 1
    funext p
    simp [Nat.add_assoc]

theorem string_eq {quote : Char} (hq : quote.toNat < 128) :
    string (before ++ quote :: cs) (utf8Length before) quote =
      some (cutAt before (readString quote cs)) := by
  have hslice := slice?_append (before ++ [quote]) cs []
  rw [List.append_nil, List.append_assoc, List.singleton_append, utf8Length_append_ascii before hq,
    ← length_utf8Bytes (before ++ quote :: cs)] at hslice
  rw [string, hslice, Option.map_some, scanString_eq cs quote hq, readString]
  cases readQuoted quote cs with
  | none => rfl
  | some p =>
    simp [cutAt, utf8Size_of_lt hq, Nat.add_assoc]

theorem identifier_eq {c : Char} (hc : beginsIdentifier c = true) :
    identifier (before ++ c :: cs) (utf8Length before) =
      some (.ok (ofWord (c :: cs.takeWhile continuesIdentifier),
        utf8Length (before ++ c :: cs.takeWhile continuesIdentifier))) := by
  have hrun := asciiOnly_continuesIdentifier.runEnd_eq before (c :: cs)
  have hslice := slice?_append before (c :: cs.takeWhile continuesIdentifier)
    (cs.dropWhile continuesIdentifier)
  rw [List.append_assoc, List.cons_append, List.takeWhile_append_dropWhile] at hslice
  rw [List.takeWhile_cons_of_pos (continuesIdentifier_of_beginsIdentifier hc)] at hrun
  rw [identifier, hrun, hslice]
  rfl

theorem operator_eq {c : Char} (hc : c.toNat < 128) :
    operator (before ++ c :: cs) (utf8Length before) c =
      some (cutAt before (readSymbol c cs)) := by
  have hbind : (peek (before ++ c :: cs) (utf8Length before + 1)).bind (symbol₂ c) =
      cs.head?.bind (symbol₂ c) := by
    rw [peek_succ before cs hc]
    cases cs with
    | nil => rfl
    | cons d cs =>
      show symbol₂ c (lead d) = symbol₂ c d
      rcases Nat.lt_or_ge d.toNat 128 with hd | hd
      · rw [lead_eq_self hd]
      · rw [symbol₂_of_le (.inr hd), symbol₂_of_le (.inr (le_lead hd))]
  have hslice := slice?_append before (c :: cs) []
  rw [List.append_nil, ← length_utf8Bytes (before ++ c :: cs)] at hslice
  rw [operator, hbind, readSymbol]
  cases hlong : cs.head?.bind (symbol₂ c) with
  | some kind =>
    obtain ⟨d, hhead, hk⟩ := Option.bind_eq_some_iff.1 hlong
    obtain ⟨ds, rfl⟩ := List.head?_eq_some_iff.1 hhead
    have hd : d.toNat < 128 := by
      refine Nat.lt_of_not_le fun hle => ?_
      rw [symbol₂_of_le (.inr hle)] at hk
      cases hk
    simp [cutAt, utf8Size_of_lt hc, utf8Size_of_lt hd]
  | none =>
    cases hshort : symbol₁ c with
    | some kind => simp [cutAt, utf8Size_of_lt hc]
    | none =>
      dsimp only
      rw [hslice]
      rfl

/-- What is no ASCII character is reported as the character it is. -/
theorem operator_of_le {c : Char} (hc : 128 ≤ c.toNat) :
    operator (before ++ c :: cs) (utf8Length before) (lead c) =
      some (.error ⟨utf8Length before, .unexpectedCharacter c⟩) := by
  have hlead := le_lead hc
  have hbind :
      (peek (before ++ c :: cs) (utf8Length before + 1)).bind (symbol₂ (lead c)) = none :=
    Option.bind_eq_none_iff.2 fun d _ => symbol₂_of_le (.inl hlead)
  have hslice := slice?_append before (c :: cs) []
  rw [List.append_nil, ← length_utf8Bytes (before ++ c :: cs)] at hslice
  rw [operator, hbind, symbol₁_of_le hlead]
  dsimp only
  rw [hslice]
  rfl

/-! ## Texts -/

/-- Where a character begins, the same token is cut off. -/
theorem lexeme_eq (c : Char) :
    lexeme (before ++ c :: cs) (utf8Length before) (lead c) =
      some (cutAt before (readToken c cs)) := by
  rcases Nat.lt_or_ge c.toNat 128 with hc | hc
  · rw [lead_eq_self hc, lexeme, readToken]
    split
    · exact number_eq before cs c
    · split
      · exact string_eq before cs hc
      · split
        · rename_i hword
          exact identifier_eq before cs hword
        · exact operator_eq before cs hc
  · obtain ⟨hdigit, hbegins, -, -⟩ := eq_false_of_le (le_lead hc)
    have hquote : ¬ (lead c = '\x27' || lead c = '"') = true := by
      simp [ne_of_le (le_lead hc) (d := '\x27') (by decide),
        ne_of_le (le_lead hc) (d := '"') (by decide)]
    rw [lexeme, if_neg (by simp [hdigit]), if_neg hquote, if_neg (by simp [hbegins]),
      operator_of_le before cs hc, readToken_of_le hc]
    rfl

theorem tokenizeFrom_dropWhile (position : Nat) :
    tokenizeFrom position cs =
      tokenizeFrom (position + utf8Length (cs.takeWhile isBlank)) (cs.dropWhile isBlank) := by
  induction cs generalizing position with
  | nil => rfl
  | cons c cs ih =>
    cases hc : isBlank c with
    | false => simp [hc]
    | true =>
      rw [tokenizeFrom, if_pos hc, ih, List.takeWhile_cons_of_pos hc, List.dropWhile_cons_of_pos hc,
        utf8Length_cons, Nat.add_assoc]

theorem tokenizeFrom_cons {c : Char} (hc : Token.isBlank c = false) (position : Nat) :
    tokenizeFrom position (c :: cs) =
      match readToken c cs with
      | .error fault => .error ⟨position, fault⟩
      | .ok cut => (tokenizeFrom (position + utf8Length cut.text) cut.rest).map
          (⟨cut.kind, position, cut.text⟩ :: ·) := by
  rw [tokenizeFrom, hc, if_neg Bool.false_ne_true]
  split
  · rename_i fault hread
    rw [hread]
  · rename_i cut hread
    dsimp only
    rw [hread]
    dsimp only
    cases tokenizeFrom (position + utf8Length cut.text) cut.rest <;> rfl

section

variable {source : List Char} {pos : Nat}

theorem lexemesFrom_end (h : peek source (runEnd Token.isBlank source pos) = none) :
    lexemesFrom source pos = some (.ok ([], runEnd Token.isBlank source pos)) := by
  rw [lexemesFrom]
  dsimp only
  split
  · rfl
  · rename_i hc
    cases h.symm.trans hc

theorem lexemesFrom_step {c : Char} (h : peek source (runEnd Token.isBlank source pos) = some c) :
    lexemesFrom source pos =
      match lexeme source (runEnd Token.isBlank source pos) c with
      | none => none
      | some (.error e) => some (.error e)
      | some (.ok p) => (lexemesFrom source p.2).map fun r =>
          r.map fun q => (⟨p.1, runEnd Token.isBlank source pos, p.2⟩ :: q.1, q.2) := by
  rw [lexemesFrom]
  dsimp only
  split
  · rename_i hc
    cases h.symm.trans hc
  · rename_i d hd
    obtain rfl : c = d := Option.some.inj (h.symm.trans hd)
    split <;> rename_i hlexeme <;> rw [hlexeme]

end

/-- The walk over the bytes goes on from a boundary as the one over the characters does. -/
theorem lexemesFrom_eq :
    lexemesFrom (before ++ cs) (utf8Length before) =
      some ((tokenizeFrom (utf8Length before) cs).map fun ts =>
        (ts.map Token.lexeme, utf8Length (before ++ cs))) := by
  -- every token shortens the text that is left
  induction hn : cs.length using Nat.strongRecOn generalizing before cs with
  | ind n ih =>
    subst hn
    have hstart := asciiOnly_isBlank.runEnd_eq before cs
    have hsource : before ++ cs =
        before ++ cs.takeWhile Token.isBlank ++ cs.dropWhile Token.isBlank := by
      rw [List.append_assoc, List.takeWhile_append_dropWhile]
    have hpeek := peek_utf8Length (before ++ cs.takeWhile Token.isBlank)
      (cs.dropWhile Token.isBlank)
    rw [← hsource, ← hstart] at hpeek
    rw [tokenizeFrom_dropWhile, ← utf8Length_append]
    cases htail : cs.dropWhile Token.isBlank with
    | nil =>
      rw [htail] at hpeek hsource
      rw [lexemesFrom_end hpeek, hstart, tokenizeFrom, hsource, List.append_nil]
      rfl
    | cons c ds =>
      have hblank : Token.isBlank c = false := by
        simpa [htail] using List.head?_dropWhile_not Token.isBlank cs
      have hlength : (c :: ds).length ≤ cs.length :=
        htail ▸ (List.dropWhile_suffix (l := cs) Token.isBlank).length_le
      rw [htail] at hpeek hsource
      have hlexeme := lexeme_eq (before ++ cs.takeWhile Token.isBlank) ds c
      rw [← hsource, ← hstart] at hlexeme
      rw [lexemesFrom_step hpeek, hlexeme, tokenizeFrom_cons ds hblank, hstart]
      cases hread : readToken c ds with
      | error fault => rfl
      | ok cut =>
        let upto := before ++ cs.takeWhile Token.isBlank ++ cut.text
        have hrest := ih cut.rest.length (Nat.lt_of_le_of_lt (length_rest_le hread) hlength)
          upto cut.rest rfl
        rw [List.append_assoc _ cut.text, (readToken_eq hread).1, ← hsource] at hrest
        rw [cutAt]
        dsimp only
        rw [hrest, ← utf8Length_append]
        cases tokenizeFrom (utf8Length upto) cut.rest with
        | error e => rfl
        | ok ts => simp [Except.map, Token.lexeme, Token.stop, Nat.add_assoc]

/-- The walk over the bytes of a text asks for no slice that cannot be taken, and finds the tokens
of the text and its end. The tokens are slices of the text, one behind the other, and every byte
outside of them is a blank; with a blank between any two they are cut into tokens of the same kinds
again. A text that has no tokens or is no expression is given up at a boundary, at its end at the
latest. -/
theorem lexemes_cover (source : List Char) :
    lexemes source =
        some ((tokenize source).map fun ts => (ts.map Token.lexeme, utf8Length source)) ∧
      (∀ ts, tokenize source = .ok ts →
        (∀ t ∈ ts, t.position < t.stop ∧ slice? t.position t.stop source = some t.text) ∧
        ts.Pairwise (fun t u => t.stop ≤ u.position) ∧
        (∀ n c, peek source n = some c → (∀ t ∈ ts, n < t.position ∨ t.stop ≤ n) →
          c ∈ [' ', '\t', '\n', '\x0c', '\r']) ∧
        ∃ us, tokenize (spaced ts) = .ok us ∧ us.map Token.kind = ts.map Token.kind) ∧
      ∀ e, tokenize source = .error e ∨ Expr.parse source = .error e →
        isBoundary e.position source = true ∧ e.position ≤ utf8Length source := by
  refine ⟨lexemesFrom_eq [] source, fun ts hts => ?_, fun e he => ?_⟩
  · have hcovers : Covers (utf8Length []) source ts := tokenizeFrom_covers hts
    have halone := hcovers.standsAlone
    obtain ⟨us, hus, hsame⟩ := tokenize_spaced halone
    refine ⟨fun t ht => ⟨(halone t ht).position_lt_stop, hcovers.slice? t ht⟩, hcovers.pairwise,
      fun n c hc ho => ?_, us, hus, ?_⟩
    · have hblank := hcovers.isBlank (Nat.zero_le n) hc ho
      simpa [Token.isBlank, or_assoc] using hblank
    · have hkinds := congrArg (List.map Prod.fst) hsame
      rw [List.map_map, List.map_map] at hkinds
      exact hkinds
  · have hboundary := Expr.isBoundary_of_error he
    exact ⟨hboundary, le_of_isBoundary hboundary⟩

/-- A string with an escaped quote and a character of two bytes, a symbol and an integer. -/
def mixed : List Char := " '\\'é'>=1\t".toList

/-- The tokens of `mixed`. -/
def mixedTokens : List Token :=
  [⟨.str "'é", 1, ['\x27', '\\', '\x27', 'é', '\x27']⟩, ⟨.op .ge, 7, ['>', '=']⟩,
    ⟨.int 1, 9, ['1']⟩]

/-- No blank stands between the tokens of `mixed`, but with blanks there they are the same; a
character of two bytes behind them is no token. -/
theorem lexemes_cover_mixed :
    tokenize mixed = .ok mixedTokens ∧
      lexemes mixed =
        some (.ok ([⟨.str "'é", 1, 7⟩, ⟨.op .ge, 7, 9⟩, ⟨.int 1, 9, 10⟩], 11)) ∧
      (∃ us, tokenize (spaced mixedTokens) = .ok us ∧
        us.map Token.kind = [.str "'é", .op .ge, .int 1]) ∧
      tokenize (mixed ++ ['é']) = .error ⟨11, .unexpectedCharacter 'é'⟩ ∧
      isBoundary 11 (mixed ++ ['é']) = true := by
  have htokens : tokenize mixed = .ok mixedTokens := by with_unfolding_all rfl
  have herror : tokenize (mixed ++ ['é']) = .error ⟨11, .unexpectedCharacter 'é'⟩  := by
    with_unfolding_all rfl
  obtain ⟨hlexemes, hcover, -⟩ := lexemes_cover mixed
  obtain ⟨-, -, hspaced⟩ := (hcover _ htokens).2
  rw [htokens] at hlexemes
  exact ⟨htokens, hlexemes, hspaced, herror, ((lexemes_cover _).2.2 _ (.inl herror)).1⟩

end Lexeme

end Stencil
