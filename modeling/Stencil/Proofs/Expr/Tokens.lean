import Stencil.Proofs.Expr.Names
import Stencil.Text.Search
import Stencil.Text.Utf8

/-!
# The tokens of a text

* A token stands on its own (`StandsAlone`): its text is read as it again, whatever follows behind
  a blank (`readToken_again`). So tokens can be written down with a blank between any two
  (`tokenize_spaced`).
* `Covers` says that a text is made of tokens and blanks (`tokenizeFrom_covers`): the ranges of the
  tokens follow each other, and every byte outside of them is a blank.
* Texts are given up where a character begins or at the end (`tokenizeFrom_error`), by the readers
  of expressions at a token or at the end (`readLevel_placed`).
-/

namespace Stencil

open Text

namespace Token

/-! ## Tokens that are read again -/

section

variable {cs rest : List Char}

/-- A run of characters is read again, if no further one follows. -/
theorem span_takeWhile {p : Char → Bool} (cs : List Char) (h : ∀ d ∈ rest.head?, p d = false) :
    (cs.takeWhile p ++ rest).takeWhile p = cs.takeWhile p ∧
      (cs.takeWhile p ++ rest).dropWhile p = rest :=
  span_append (fun _ hd => List.mem_takeWhile_imp hd) h

theorem splitFraction_again (h : ∀ c ∈ rest.head?, c.isDigit = false ∧ c ≠ '.') :
    splitFraction ((splitFraction cs).1 ++ rest) = ((splitFraction cs).1, rest) := by
  have hnone : splitFraction rest = ([], rest) := by
    unfold splitFraction
    split
    · exact absurd rfl (h '.' rfl).2
    · rfl
  fun_cases splitFraction cs with
  | case1 c cs hc =>
    obtain ⟨htake, hdrop⟩ := span_takeWhile (c :: cs) fun d hd => (h d hd).1
    rw [List.takeWhile_cons_of_pos hc, List.cons_append] at htake hdrop
    rw [List.takeWhile_cons_of_pos hc, List.cons_append, List.cons_append, splitFraction, if_pos hc,
      htake, hdrop]
  | case2 => exact hnone
  | case3 => exact hnone

theorem head?_splitFraction : ∀ c ∈ (splitFraction cs).1.head?, c = '.' := by
  fun_cases splitFraction cs with
  | case1 c cs hc => exact fun d hd => (Option.mem_some_iff.1 hd).symm
  | case2 => exact nofun
  | case3 => exact nofun

theorem splitSign_again {d : Char} (h : d.isDigit = true) :
    splitSign ((splitSign cs).1 ++ d :: rest) = ((splitSign cs).1, d :: rest) := by
  have hd : (d = '+' || d = '-') = false := by
    refine Bool.eq_false_iff.2 fun hsign => ?_
    simp only [Bool.or_eq_true, decide_eq_true_eq] at hsign
    rcases hsign with rfl | rfl <;> cases h
  fun_cases splitSign cs with
  | case1 c cs hc => rw [List.singleton_append, splitSign, if_pos hc]
  | case2 c cs hc => rw [List.nil_append, splitSign, hd, if_neg Bool.false_ne_true]
  | case3 => rw [List.nil_append, splitSign, hd, if_neg Bool.false_ne_true]

theorem splitExponent_again (h : ∀ c ∈ rest.head?, continuesIdentifier c = false) :
    splitExponent ((splitExponent cs).1 ++ rest) = ((splitExponent cs).1, rest) := by
  have hnone : splitExponent rest = ([], rest) := by
    unfold splitExponent
    split
    · rename_i c rest
      have hc : ¬ (c = 'e' || c = 'E') = true := by
        simp only [Bool.or_eq_true, decide_eq_true_eq]
        rintro (rfl | rfl) <;> cases h _ rfl
      rw [if_neg fun hand => hc (Bool.and_eq_true_iff.1 hand).1]
    · rfl
  fun_cases splitExponent cs with
  | case1 c cs hc =>
    obtain ⟨hletter, hdigit⟩ := Bool.and_eq_true_iff.1 hc
    obtain ⟨d, hd, hdd⟩ := (Option.any_eq_true _ _).1 hdigit
    obtain ⟨ds, hds⟩ := List.head?_eq_some_iff.1 hd
    obtain ⟨htake, hdrop⟩ := span_takeWhile (p := Char.isDigit) (splitSign cs).2 fun e he => by
      by_contra hne
      have := h e he
      rw [continuesIdentifier_of_isDigit (by simpa using hne)] at this
      cases this
    rw [hds, List.takeWhile_cons_of_pos hdd, List.cons_append] at htake hdrop
    rw [hds, List.takeWhile_cons_of_pos hdd, List.cons_append, List.cons_append, List.append_assoc,
      List.cons_append, splitExponent, splitSign_again hdd, htake, hdrop, hletter]
    simp [hdd]
  | case2 => exact hnone
  | case3 => exact hnone

theorem head?_splitExponent : ∀ c ∈ (splitExponent cs).1.head?, c = 'e' ∨ c = 'E' := by
  fun_cases splitExponent cs with
  | case1 c cs hc =>
    intro d hd
    obtain rfl := Option.mem_some_iff.1 hd
    simpa using (Bool.and_eq_true_iff.1 hc).1
  | case2 => exact nofun
  | case3 => exact nofun

/-- The parts of a number are split off again, whatever does not continue a word follows. -/
theorem split_number {digits : List Char} (hd : ∀ d ∈ digits, d.isDigit = true) (cs ds : List Char)
    (hr : EndsWord rest) :
    let fraction := (splitFraction cs).1
    let exponent := (splitExponent ds).1
    (digits ++ (fraction ++ (exponent ++ rest))).takeWhile Char.isDigit = digits ∧
      splitFraction ((digits ++ (fraction ++ (exponent ++ rest))).dropWhile Char.isDigit) =
        (fraction, exponent ++ rest) ∧
      splitExponent (exponent ++ rest) = (exponent, rest) := by
  intro fraction exponent
  have hexponent : ∀ c ∈ (exponent ++ rest).head?, c.isDigit = false ∧ c ≠ '.' := by
    intro c hc
    cases he : exponent with
    | nil =>
      rw [he, List.nil_append] at hc
      exact ⟨hr.isDigit_eq_false c hc, (hr c hc).2⟩
    | cons e es =>
      rw [he] at hc
      obtain rfl := Option.mem_some_iff.1 hc
      rcases head?_splitExponent e (congrArg List.head? he) with rfl | rfl <;>
        exact ⟨rfl, by decide⟩
  have hfraction : ∀ c ∈ (fraction ++ (exponent ++ rest)).head?, c.isDigit = false := by
    intro c hc
    cases hf : fraction with
    | nil =>
      rw [hf, List.nil_append] at hc
      exact (hexponent c hc).1
    | cons f fs =>
      rw [hf] at hc
      obtain rfl := Option.mem_some_iff.1 hc
      obtain rfl := head?_splitFraction f (congrArg List.head? hf)
      rfl
  obtain ⟨htake, hdrop⟩ := span_append hd hfraction
  exact ⟨htake, by rw [hdrop, splitFraction_again hexponent],
    splitExponent_again fun c hc => (hr c hc).1⟩

theorem readNumber_again {c : Char} {cut : Cut} (h : readNumber (c :: cs) = .ok cut)
    (hr : EndsWord rest) : readNumber (cut.text ++ rest) = .ok ⟨cut.kind, cut.text, rest⟩ := by
  have hdigits : ∀ d ∈ (c :: cs).takeWhile Char.isDigit, d.isDigit = true :=
    fun d hd => List.mem_takeWhile_imp (p := Char.isDigit) hd
  obtain ⟨htake, hfraction, hexponent⟩ := split_number hdigits ((c :: cs).dropWhile Char.isDigit)
    (splitFraction ((c :: cs).dropWhile Char.isDigit)).2 hr
  have htext : cut.text = (c :: cs).takeWhile Char.isDigit ++
      (splitFraction ((c :: cs).dropWhile Char.isDigit)).1 ++
      (splitExponent (splitFraction ((c :: cs).dropWhile Char.isDigit)).2).1 := by
    simp only [readNumber] at h
    split at h
    · rename_i hparts
      simp only [Bool.and_eq_true, List.isEmpty_iff] at hparts
      rw [hparts.1, hparts.2, List.append_nil, List.append_nil]
      split at h <;> cases h
      rfl
    · cases h
      rfl
  rw [htext]
  simp only [List.append_assoc] at htake hfraction hexponent ⊢
  simp only [readNumber, htake, hfraction, hexponent]
  simp only [readNumber] at h
  split at h
  · rename_i hparts
    rw [if_pos hparts]
    simp only [Bool.and_eq_true, List.isEmpty_iff] at hparts
    split at h
    · rename_i n hn
      cases h
      simp only [hparts.1, hparts.2, List.append_nil]
    · cases h
  · rename_i hparts
    rw [if_neg hparts]
    cases h
    simp only [List.append_assoc]

theorem readQuoted_cons {quote c : Char} (hc : c ≠ '\\') (cs : List Char) :
    readQuoted quote (c :: cs) =
      if c = quote then some ([], [c], cs)
      else (readQuoted quote cs).map fun p => (c :: p.1, c :: p.2.1, p.2.2) := by
  rw [readQuoted]
  · exact fun h => absurd h hc
  · exact fun _ _ h => absurd h hc

theorem readQuoted_again {quote : Char} {value text more : List Char}
    (h : readQuoted quote cs = some (value, text, more)) :
    readQuoted quote (text ++ rest) = some (value, text, rest) := by
  fun_induction readQuoted quote cs generalizing value text with
  | case1 => cases h
  | case2 => cases h
  | case3 c cs ih =>
    obtain ⟨p, hp, he⟩ := Option.map_eq_some_iff.1 h
    cases he
    rw [List.cons_append, List.cons_append, readQuoted, ih hp]
    rfl
  | case4 cs hnil hcons =>
    cases h
    rw [List.singleton_append, readQuoted_cons (ne_of_not_escape hnil hcons), if_pos rfl]
  | case5 c cs hnil hcons hc ih =>
    obtain ⟨p, hp, he⟩ := Option.map_eq_some_iff.1 h
    cases he
    rw [List.cons_append, readQuoted_cons (ne_of_not_escape hnil hcons), if_neg hc, ih hp]
    rfl

/-- The token is read from its text, with what begins with a blank behind it. -/
def StandsAlone (t : Token) : Prop :=
  ∃ c cs, t.text = c :: cs ∧ isBlank c = false ∧ ∀ rest : List Char,
    (∀ d ∈ rest.head?, isBlank d = true) → readToken c (cs ++ rest) = .ok ⟨t.kind, t.text, rest⟩

theorem endsWord_of_isBlank (h : ∀ d ∈ rest.head?, isBlank d = true) : EndsWord rest := by
  intro d hd
  have hb := h d hd
  simp only [isBlank, Bool.or_eq_true, decide_eq_true_eq] at hb
  rcases hb with (((rfl | rfl) | rfl) | rfl) | rfl <;> decide

theorem readSymbol_again {c : Char} {cut : Cut} (h : readSymbol c cs = .ok cut)
    (hr : ∀ d ∈ rest.head?, isBlank d = true) :
    ∃ ds, cut.text = c :: ds ∧ readSymbol c (ds ++ rest) = .ok ⟨cut.kind, cut.text, rest⟩ := by
  unfold readSymbol at h
  split at h
  · rename_i kind hk
    cases h
    obtain ⟨d, hd, hlong⟩ := Option.bind_eq_some_iff.1 hk
    obtain ⟨ds, rfl⟩ := List.head?_eq_some_iff.1 hd
    exact ⟨[d], rfl, by simp [readSymbol, hlong]⟩
  · split at h
    · rename_i kind hk
      cases h
      have hlong : rest.head?.bind (symbol₂ c) = none := by
        cases rest with
        | nil => rfl
        | cons d rest =>
          have hb := hr d rfl
          show symbol₂ c d = none
          unfold symbol₂
          split <;> first | rfl | cases hb
      exact ⟨[], rfl, by simp [readSymbol, hlong, hk]⟩
    · cases h

/-- A token is read from its text again, if nothing follows or a blank does. -/
theorem readToken_again {c : Char} {cut : Cut} (h : readToken c cs = .ok cut)
    (hr : ∀ d ∈ rest.head?, isBlank d = true) :
    ∃ ds, cut.text = c :: ds ∧ readToken c (ds ++ rest) = .ok ⟨cut.kind, cut.text, rest⟩ := by
  obtain ⟨ds, hds⟩ : ∃ ds, cut.text = c :: ds := by
    obtain ⟨heq, hne⟩ := readToken_eq h
    obtain ⟨d, ds, hd⟩ := List.exists_cons_of_ne_nil hne
    rw [hd, List.cons_append, List.cons.injEq] at heq
    exact ⟨ds, heq.1 ▸ hd⟩
  unfold readToken at h
  split at h
  · rename_i hc
    have hnumber := readNumber_again h (endsWord_of_isBlank hr)
    rw [hds, List.cons_append, ← hds] at hnumber
    exact ⟨ds, hds, by rw [readToken, if_pos hc, hnumber]⟩
  · rename_i hdigit
    split at h
    · rename_i hquote
      unfold readString at h
      split at h
      · rename_i value text more hq
        cases h
        refine ⟨text, rfl, ?_⟩
        rw [readToken, if_neg hdigit, if_pos hquote, readString, readQuoted_again hq]
      · cases h
    · rename_i hquote
      split at h
      · rename_i hword
        cases h
        obtain ⟨htake, hdrop⟩ :=
          span_takeWhile cs fun d hd => (endsWord_of_isBlank hr d hd).1
        exact ⟨_, rfl, by rw [readToken, if_neg hdigit, if_neg hquote, if_pos hword, htake, hdrop]⟩
      · rename_i hword
        obtain ⟨ds, hds, hread⟩ := readSymbol_again h hr
        exact ⟨ds, hds, by
          rw [readToken, if_neg hdigit, if_neg hquote, if_neg hword, hread]⟩

end

/-! ## Texts made of tokens and blanks -/

/-- The byte offset behind the token. -/
def stop (t : Token) : Nat := t.position + utf8Length t.text

/-- From the byte offset `position` on, the text is made of the tokens and of blanks around them. -/
inductive Covers : Nat → List Char → List Token → Prop
  | blanks {position : Nat} {gap : List Char} (h : ∀ c ∈ gap, isBlank c = true) :
    Covers position gap []
  | token {position : Nat} {gap cs : List Char} {t : Token} {ts : List Token}
    (hgap : ∀ c ∈ gap, isBlank c = true) (hposition : t.position = position + utf8Length gap)
    (ht : t.StandsAlone) (h : Covers t.stop cs ts) :
    Covers position (gap ++ (t.text ++ cs)) (t :: ts)

section

variable {position n : Nat} {before cs : List Char} {ts : List Token} {t : Token} {c : Char}

theorem StandsAlone.text_ne_nil (h : t.StandsAlone) : t.text ≠ [] := by
  obtain ⟨c, cs, ht, -⟩ := h
  rw [ht]
  exact List.cons_ne_nil c cs

theorem StandsAlone.position_lt_stop (h : t.StandsAlone) : t.position < t.stop :=
  Nat.lt_add_of_pos_right (utf8Length_pos h.text_ne_nil)

theorem Covers.blank (hc : isBlank c = true) (h : Covers (position + c.utf8Size) cs ts) :
    Covers position (c :: cs) ts := by
  cases h with
  | blanks h => exact .blanks (List.forall_mem_cons.2 ⟨hc, h⟩)
  | token hgap hposition ht h =>
    refine .token (List.forall_mem_cons.2 ⟨hc, hgap⟩) ?_ ht h
    rw [hposition, utf8Length_cons, Nat.add_assoc]

/-- A text that is cut into tokens is made of them and of blanks. -/
theorem tokenizeFrom_covers (h : tokenizeFrom position cs = .ok ts) : Covers position cs ts := by
  fun_induction tokenizeFrom position cs generalizing ts with
  | case1 =>
    cases h
    exact .blanks nofun
  | case2 position c cs hc ih => exact (ih h).blank hc
  | case3 => cases h
  | case4 => cases h
  | case5 position c cs hc cut hcut _ us hus ih =>
    cases h
    have hb : isBlank c = false := by simpa using hc
    have hnil : ∀ d ∈ ([] : List Char).head?, isBlank d = true := nofun
    obtain ⟨ds, hds, -⟩ := readToken_again hcut hnil
    have ht : StandsAlone ⟨cut.kind, position, cut.text⟩ :=
      ⟨c, ds, hds, hb, fun rest hr => by
        obtain ⟨ds', hds', hread⟩ := readToken_again hcut hr
        obtain rfl : ds' = ds := (List.cons.inj (hds'.symm.trans hds)).2
        exact hread⟩
    have hgap : ∀ d ∈ ([] : List Char), isBlank d = true := nofun
    have htoken := Covers.token hgap rfl ht (ih hus)
    rwa [List.nil_append, (readToken_eq hcut).1] at htoken

theorem Covers.standsAlone (h : Covers position cs ts) : ∀ t ∈ ts, t.StandsAlone := by
  induction h with
  | blanks => exact nofun
  | token _ _ ht _ ih => exact List.forall_mem_cons.2 ⟨ht, ih⟩

theorem Covers.position_le (h : Covers position cs ts) : ∀ t ∈ ts, position ≤ t.position := by
  induction h with
  | blanks => exact nofun
  | @token position gap cs t ts hgap hposition ht h ih =>
    have hlt := ht.position_lt_stop
    refine List.forall_mem_cons.2 ⟨by omega, fun u hu => ?_⟩
    have := ih u hu
    omega

/-- The tokens follow each other. -/
theorem Covers.pairwise (h : Covers position cs ts) :
    ts.Pairwise fun t u => t.stop ≤ u.position := by
  induction h with
  | blanks => exact .nil
  | token _ _ _ h ih => exact List.pairwise_cons.2 ⟨h.position_le, ih⟩

/-- A token is the slice of the text between its offsets. -/
theorem Covers.slice? (h : Covers (utf8Length before) cs ts) :
    ∀ t ∈ ts, Text.slice? t.position t.stop (before ++ cs) = some t.text := by
  generalize hp : utf8Length before = position at h
  induction h generalizing before with
  | blanks => exact nofun
  | @token position gap cs t ts hgap hposition ht h ih =>
    have hstart : utf8Length (before ++ gap) = t.position := by
      rw [utf8Length_append, hp, hposition]
    have hstop : utf8Length (before ++ gap ++ t.text) = t.stop := by
      rw [utf8Length_append, hstart, stop]
    have hrest := ih hstop
    have hslice := slice?_append (before ++ gap) t.text cs
    rw [hstart, hstop] at hslice
    simp only [List.append_assoc] at hslice hrest ⊢
    exact List.forall_mem_cons.2 ⟨hslice, hrest⟩

theorem asciiOnly_isBlank : AsciiOnly Token.isBlank := fun _ h => (eq_false_of_le h).2.2.2

/-- The bytes outside of the tokens are blanks. -/
theorem Covers.isBlank (h : Covers (utf8Length before) cs ts) (hle : utf8Length before ≤ n)
    (hc : peek (before ++ cs) n = some c) (ho : ∀ t ∈ ts, n < t.position ∨ t.stop ≤ n) :
    Token.isBlank c = true := by
  generalize hp : utf8Length before = position at h
  induction h generalizing before with
  | @blanks position gap hgap =>
    have hlt : n < utf8Length (before ++ gap) := by
      rw [← length_utf8Bytes]
      exact lt_of_peek_eq_some hc
    rw [← List.append_nil gap] at hc
    exact hgap c (mem_of_peek (fun d hd => asciiOnly_isBlank.lt (hgap d hd)) hle hlt hc)
  | @token position gap cs t ts hgap hposition ht h ih =>
    obtain ⟨hthis, hrest⟩ := List.forall_mem_cons.1 ho
    rcases hthis with hlt | hge
    · refine hgap c (mem_of_peek (fun d hd => asciiOnly_isBlank.lt (hgap d hd)) hle ?_ hc)
      rwa [utf8Length_append, hp, ← hposition]
    · have hstop : utf8Length (before ++ (gap ++ t.text)) = t.stop := by
        rw [utf8Length_append, utf8Length_append, ← Nat.add_assoc, hp, ← hposition, stop]
      refine ih (hstop ▸ hge) ?_ hrest hstop
      simpa only [List.append_assoc] using hc

/-! ## Tokens with a blank between any two -/

/-- The tokens as they stand in their text, with a blank between any two. -/
def spaced (ts : List Token) : List Char := [' '].intercalate (ts.map Token.text)

theorem StandsAlone.splits (h : t.StandsAlone) {rest : List Char}
    (hr : ∀ d ∈ rest.head?, Token.isBlank d = true) (position : Nat) :
    Splits position t.text rest [⟨t.kind, position, t.text⟩] := by
  obtain ⟨c, cs, ht, hc, hread⟩ := h
  have hread := hread rest hr
  rw [ht] at hread ⊢
  exact splits_token hc hread position

/-- Tokens that are written down with blanks between them are the same tokens. -/
theorem splits_spaced (h : ∀ t ∈ ts, t.StandsAlone) (position : Nat) :
    ∃ us, Splits position (spaced ts) [] us ∧
      us.map (fun u => (u.kind, u.text)) = ts.map fun t => (t.kind, t.text) := by
  induction ts generalizing position with
  | nil => exact ⟨[], splits_nil [] position, rfl⟩
  | cons t ts ih =>
    obtain ⟨ht, hts⟩ := List.forall_mem_cons.1 h
    cases ts with
    | nil =>
      have hspaced : spaced [t] = t.text := List.intercalate_singleton
      rw [hspaced]
      have hnil : ∀ d ∈ ([] : List Char).head?, Token.isBlank d = true := nofun
      exact ⟨_, ht.splits hnil position, rfl⟩
    | cons u ts =>
      have hspaced : spaced (t :: u :: ts) = t.text ++ ([' '] ++ spaced (u :: ts)) := by
        rw [← List.append_assoc]
        exact List.intercalate_cons_cons
      obtain ⟨us, hus, hsame⟩ := ih hts (position + utf8Length t.text + utf8Length [' '])
      have hblank := splits_blank (c := ' ') rfl (spaced (u :: ts) ++ [])
        (position + utf8Length t.text)
      have hnext : ∀ d ∈ ([' '] ++ spaced (u :: ts) ++ []).head?, Token.isBlank d = true := by
        rintro d ⟨⟩
        rfl
      have htoken := ht.splits hnext position
      rw [hspaced]
      exact ⟨_, htoken.append (hblank.append hus), congrArg ((t.kind, t.text) :: ·) hsame⟩

/-- What tokens with a blank between any two are cut into. -/
theorem tokenize_spaced (h : ∀ t ∈ ts, t.StandsAlone) :
    ∃ us, tokenize (spaced ts) = .ok us ∧
      us.map (fun u => (u.kind, u.text)) = ts.map fun t => (t.kind, t.text) := by
  obtain ⟨us, hsplits, hsame⟩ := splits_spaced h 0
  refine ⟨us, ?_, hsame⟩
  rw [Splits, List.append_nil, tokenizeFrom] at hsplits
  rw [tokenize, hsplits]
  exact congrArg Except.ok (List.append_nil us)

/-! ## Where texts are given up -/

/-- A text that is not cut into tokens is given up where a character of it begins. -/
theorem tokenizeFrom_error {e : SyntaxError} (h : tokenizeFrom position cs = .error e) :
    ∃ used, used <+: cs ∧ e.position = position + utf8Length used := by
  fun_induction tokenizeFrom position cs with
  | case1 => cases h
  | case2 position c cs hc ih =>
    obtain ⟨used, hused, he⟩ := ih h
    refine ⟨c :: used, List.cons_prefix_cons.2 ⟨rfl, hused⟩, ?_⟩
    rw [he, utf8Length_cons, Nat.add_assoc]
  | case3 =>
    cases h
    exact ⟨[], List.nil_prefix, rfl⟩
  | case4 position c cs hc cut hcut _ e' he' ih =>
    cases h
    obtain ⟨used, hused, he⟩ := ih he'
    rw [← (readToken_eq hcut).1]
    refine ⟨cut.text ++ used, List.prefix_append_right_inj _ |>.2 hused, ?_⟩
    rw [he, utf8Length_append, Nat.add_assoc]
  | case5 => cases h

end

end Token

namespace Expr

/-- A reader leaves tokens from the end of those it was given, and gives up at one of these or at
the end of the text. -/
def Placed {α : Type} {P : List Token → Prop} (stop : Nat) (ts : List Token)
    (r : Except SyntaxError (α × Subtype P)) : Prop :=
  match r with
  | .ok (_, rest) => rest.1 <:+ ts
  | .error e => ∃ us, us <:+ ts ∧ e.position = nextPosition stop us

section

variable {α : Type} {P : List Token → Prop} {stop : Nat} {ts us : List Token}
  {r : Except SyntaxError (α × Subtype P)}

theorem Placed.mono (h : Placed stop us r) (hs : us <:+ ts) : Placed stop ts r := by
  cases r with
  | ok p => exact List.IsSuffix.trans h hs
  | error e =>
    obtain ⟨vs, hv, he⟩ := h
    exact ⟨vs, hv.trans hs, he⟩

theorem Placed.suffix {a : α} {rest : Subtype P} (h : Placed stop ts r) (hr : r = .ok (a, rest)) :
    rest.1 <:+ ts := by
  subst hr
  exact h

theorem Placed.error {e : SyntaxError} (h : Placed stop ts r) (hr : r = .error e) :
    ∃ us, us <:+ ts ∧ e.position = nextPosition stop us := by
  subst hr
  exact h

theorem drop?_suffix {m : Mark} (h : drop? m ts = some us) : us <:+ ts := by
  obtain ⟨t, rfl, -⟩ := drop?_eq_some_iff.1 h
  exact List.suffix_cons t us

theorem chainOp?_suffix {level : Nat} {op : BinaryOp} (h : chainOp? level ts = some (op, us)) :
    us <:+ ts := by
  obtain ⟨t, rfl, -⟩ := chainOp?_eq_some_iff.1 h
  exact List.suffix_cons t us

theorem unaryOp?_suffix {op : UnaryOp} (h : unaryOp? ts = some (op, us)) : us <:+ ts := by
  obtain ⟨t, rfl, -⟩ := unaryOp?_eq_some_iff.1 h
  exact List.suffix_cons t us

end

theorem readProperties_placed (stop : Nat) (ts : List Token) :
    Placed stop ts (readProperties stop ts) := by
  fun_induction readProperties stop ts with
  | case1 _ _ _ _ _ ts e he ih =>
    rw [he] at ih
    exact Placed.mono (r := .error e) ih ((List.suffix_cons _ ts).trans (List.suffix_cons _ _))
  | case2 _ _ name _ _ ts names rest hr ih =>
    exact (ih.suffix hr).trans ((List.suffix_cons _ ts).trans (List.suffix_cons _ _))
  | case3 _ _ ts => exact ⟨ts, List.suffix_cons _ ts, rfl⟩
  | case4 ts => exact List.suffix_refl ts

mutual

theorem readLevel_placed (limit stop level nesting : Nat) (ts : List Token) :
    Placed stop ts (readLevel limit stop level nesting ts) := by
  rw [readLevel]
  split
  · have hleft := readLevel_placed limit stop (level + 1) nesting ts
    split
    · rename_i e he
      exact hleft.error he
    · rename_i left rest he
      have hrest := rest.2
      have hchain := (readChain_placed limit stop level nesting left rest.1).mono (hleft.suffix he)
      split
      · rename_i e he
        exact hchain.error he
      · rename_i e rest' he
        exact hchain.suffix he
  · exact readUnary_placed limit stop nesting ts
termination_by 10 * ts.length + (BinaryOp.levels + 2 - min level BinaryOp.levels)
decreasing_by
  · simp only [BinaryOp.levels] at *
    omega
  · simp only [BinaryOp.levels] at *
    omega
  · omega

theorem readChain_placed (limit stop level nesting : Nat) (left : Expr) (ts : List Token) :
    Placed stop ts (readChain limit stop level nesting left ts) := by
  rw [readChain]
  split
  · exact List.suffix_refl ts
  · rename_i op tail hop
    split
    · exact ⟨ts, List.suffix_refl ts, rfl⟩
    · have ht := length_chainOp? hop
      have hright := (readLevel_placed limit stop (level + 1) (nesting + 1) tail).mono
        (chainOp?_suffix hop)
      split
      · rename_i e he
        exact hright.error he
      · rename_i right rest he
        have hrest := rest.2
        have hchain := (readChain_placed limit stop level (nesting + 1) (.binary op left right)
          rest.1).mono (hright.suffix he)
        split
        · rename_i e he
          exact hchain.error he
        · rename_i e rest' he
          exact hchain.suffix he
termination_by 10 * ts.length
decreasing_by
  · simp only [BinaryOp.levels]
    omega
  · omega

theorem readUnary_placed (limit stop nesting : Nat) (ts : List Token) :
    Placed stop ts (readUnary limit stop nesting ts) := by
  rw [readUnary]
  split
  · exact readPrimary_placed limit stop nesting ts
  · rename_i op tail hop
    have ht := length_unaryOp? hop
    have htail := unaryOp?_suffix hop
    split
    · exact ⟨tail, htail, rfl⟩
    · have hoperand := (readUnary_placed limit stop (nesting + 1) tail).mono htail
      split
      · rename_i e he
        exact hoperand.error he
      · rename_i e rest he
        exact hoperand.suffix he
termination_by 10 * ts.length + 1
decreasing_by
  · omega
  · omega

theorem readPrimary_placed (limit stop nesting : Nat) (ts : List Token) :
    Placed stop ts (readPrimary limit stop nesting ts) := by
  match ts with
  | [] =>
    rw [readPrimary]
    exact ⟨[], List.nil_suffix, rfl⟩
  | t :: ts =>
    have htail := List.suffix_cons t ts
    rw [readPrimary]
    split
    · have hnames := (readProperties_placed stop ts).mono htail
      split
      · rename_i e he
        exact hnames.error he
      · rename_i names rest he
        exact hnames.suffix he
    · split
      · exact ⟨ts, htail, rfl⟩
      · have hinner := (readLevel_placed limit stop 0 (nesting + 1) ts).mono htail
        split
        · rename_i e he
          exact hinner.error he
        · rename_i e rest he
          have hrest := hinner.suffix he
          split
          · rename_i tail hd
            exact (drop?_suffix hd).trans hrest
          · exact ⟨rest.1, hrest, rfl⟩
    · split
      · exact ⟨ts, htail, rfl⟩
      · split
        · rename_i tail hd
          exact (drop?_suffix hd).trans htail
        · have hitems := (readItems_placed limit stop (nesting + 1) ts).mono htail
          split
          · rename_i e he
            exact hitems.error he
          · rename_i items rest he
            exact hitems.suffix he
    · split
      · exact htail
      · exact ⟨t :: ts, List.suffix_refl _, rfl⟩
termination_by 10 * ts.length
decreasing_by
  · simp only [BinaryOp.levels, List.length_cons]
    omega
  · simp only [BinaryOp.levels, List.length_cons]
    omega

theorem readItems_placed (limit stop nesting : Nat) (ts : List Token) :
    Placed stop ts (readItems limit stop nesting ts) := by
  have hitem := readLevel_placed limit stop 0 nesting ts
  rw [readItems]
  split
  · rename_i e he
    exact hitem.error he
  · rename_i item rest he
    have hrest := hitem.suffix he
    split
    · rename_i tail hd
      have ht : tail.length < ts.length := Nat.lt_trans (length_drop? hd) rest.2
      have hitems := (readItems_placed limit stop nesting tail).mono
        ((drop?_suffix hd).trans hrest)
      split
      · rename_i e he
        exact hitems.error he
      · rename_i items rest' he
        exact hitems.suffix he
    · split
      · rename_i tail hd
        exact (drop?_suffix hd).trans hrest
      · exact ⟨rest.1, hrest, rfl⟩
termination_by 10 * ts.length + (BinaryOp.levels + 3)
decreasing_by
  · simp only [BinaryOp.levels]
    omega
  · omega

end

/-- Tokens that are no expression are given up at one of them or at the end of the text, or at its
begin if there are none. -/
theorem ofTokens_error {stop : Nat} {ts : List Token} {e : SyntaxError}
    (h : ofTokens stop ts = .error e) :
    e.position = 0 ∨ e.position = stop ∨ ∃ t ∈ ts, e.position = t.position := by
  have hnext {us : List Token} (hus : us <:+ ts) (he : e.position = nextPosition stop us) :
      e.position = 0 ∨ e.position = stop ∨ ∃ t ∈ ts, e.position = t.position := by
    cases us with
    | nil => exact .inr (.inl he)
    | cons t us => exact .inr (.inr ⟨t, hus.subset List.mem_cons_self, he⟩)
  have hplaced := readLevel_placed maxNesting stop 0 0 ts
  unfold ofTokens at h
  split at h
  · cases h
    exact .inl rfl
  · split at h
    · rename_i e' he
      cases h
      obtain ⟨us, hus, he⟩ := hplaced.error he
      exact hnext hus he
    · rename_i e' rest he
      split at h
      · cases h
      · cases h
        exact hnext (hplaced.suffix he) rfl

/-- A text that has no tokens or is no expression is given up at a boundary. -/
theorem isBoundary_of_error {source : List Char} {e : SyntaxError}
    (h : Token.tokenize source = .error e ∨ parse source = .error e) :
    isBoundary e.position source = true := by
  have htokens (h : Token.tokenize source = .error e) : isBoundary e.position source = true := by
    obtain ⟨used, hused, he⟩ := Token.tokenizeFrom_error h
    exact isBoundary_iff.2 ⟨used, hused, by rw [he, Nat.zero_add]⟩
  rcases h with h | h
  · exact htokens h
  · unfold parse at h
    split at h
    · rename_i e' he
      cases h
      exact htokens he
    · rename_i ts hts
      have hcovers : Token.Covers (utf8Length []) source ts := Token.tokenizeFrom_covers hts
      rcases ofTokens_error h with he | he | ⟨t, ht, he⟩
      · exact isBoundary_iff.2 ⟨[], List.nil_prefix, he.symm⟩
      · exact isBoundary_iff.2 ⟨source, List.prefix_refl source, he.symm⟩
      · rw [he]
        exact (isBoundary_of_slice? (hcovers.slice? t ht)).1

end Expr

end Stencil
