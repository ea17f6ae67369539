import Mathlib.Data.Nat.Digits.Defs
import Stencil.Proofs.Expr.Printer
import Stencil.Proofs.Expr.Spelling

/-!
# Expressions are read back from their text

A printable tree is read back from what is printed (`parse_print`), whatever strings it has and
whichever quotes they are written in, up to the height that the limit on the nesting allows: every
operator counts for itself and for the parentheses around it, so the height may be half of the
limit.

The induction runs over the tree with the nesting of its place. Each kind of node is one of the
lemmas on `Spells`, and the literals and paths are put together from tokens here.
-/

namespace Stencil

open Text Token

/-! ## Literals -/

/-- Between quotes, an escaped character is read as itself. -/
theorem Quote.readQuoted_escapeChar (quote : Quote) (c : Char) (cs : List Char) :
    readQuoted quote.mark (quote.escapeChar c ++ cs) =
      (readQuoted quote.mark cs).map fun p =>
        (c :: p.1, quote.escapeChar c ++ p.2.1, p.2.2) := by
  unfold escapeChar
  split
  · rename_i hc
    have hunescape : unescape c = c := by
      rcases hc with rfl | rfl
      · cases quote <;> rfl
      · rfl
    rw [List.cons_append, List.cons_append, List.nil_append, readQuoted, hunescape]
    rfl
  · rename_i hc
    obtain ⟨hmark, hback⟩ := not_or.1 hc
    rw [List.cons_append, List.nil_append, readQuoted, if_neg hmark]
    · rfl
    · rintro rfl
      exact absurd rfl hback
    · rintro d ds rfl
      exact absurd rfl hback

/-- A string is read up to its closing quote, and the characters are those of the string. -/
theorem Quote.readQuoted_close (quote : Quote) (cs rest : List Char) :
    readQuoted quote.mark (quote.close cs ++ rest) = some (cs, quote.close cs, rest) := by
  induction cs with
  | nil =>
    have hback : quote.mark ≠ '\\' := by cases quote <;> decide
    rw [close_nil, List.cons_append, List.nil_append, readQuoted, if_pos rfl]
    · exact fun h => absurd h hback
    · exact fun d ds h => absurd h hback
  | cons c cs ih => rw [close_cons, List.append_assoc, readQuoted_escapeChar, ih]; rfl

/-- The digits of a number are read as that number. -/
theorem ofDigits_toDigits (n : Nat) : Number.ofDigits (Nat.toDigits 10 n) = n :=
  Nat.ofDigitChars_ten_toDigits

theorem toList_displayInt {n : Int64} (h : 0 ≤ n) :
    (displayInt n).toList = Nat.toDigits 10 n.toInt.toNat := by
  have hn : (0 : Int) ≤ n.toInt := by simpa using Int64.le_iff_toInt_le.1 h
  obtain ⟨k, hk⟩ := Int.eq_ofNat_of_zero_le hn
  rw [displayInt, hk, Int.toString_eq_repr, Int.toNat_natCast]
  exact Nat.toList_repr

theorem isDigit_of_mem_displayInt {n : Int64} (h : 0 ≤ n) :
    ∀ c ∈ (displayInt n).toList, c.isDigit = true := by
  rw [toList_displayInt h]
  exact fun c hc => Nat.isDigit_of_mem_toDigits (by decide) (by decide) hc

theorem displayInt_begins {n : Int64} (h : 0 ≤ n) :
    ∃ c cs, (displayInt n).toList = c :: cs ∧ c.isDigit = true := by
  have hne : (displayInt n).toList ≠ [] := by
    rw [toList_displayInt h]
    exact Nat.toDigits_ne_nil
  obtain ⟨c, cs, hcs⟩ := List.exists_cons_of_ne_nil hne
  exact ⟨c, cs, hcs, isDigit_of_mem_displayInt h c (hcs ▸ List.mem_cons_self)⟩

namespace Expr

section

variable {limit nesting : Nat}

theorem spells_int {n : Int64} (h : 0 ≤ n) (hn : nesting ≤ limit) :
    Spells limit nesting .primary (displayInt n).toList (.literal (.int n)) := by
  have hvalue : int64? (Number.ofDigits (displayInt n).toList) = some n := by
    have hnat : ((n.toInt.toNat : Nat) : Int) = n.toInt :=
      Int.toNat_of_nonneg (by simpa using Int64.le_iff_toInt_le.1 h)
    rw [toList_displayInt h, ofDigits_toDigits, hnat]
    exact int64?_eq_some_iff.2 rfl
  have hdigits := isDigit_of_mem_displayInt h
  obtain ⟨c, cs, hcs, -⟩ := displayInt_begins h
  rw [hcs] at hvalue hdigits ⊢
  exact spells_digits hdigits hvalue hn

theorem spells_literal (quoting : Quoting) {v : Value} (h : IsLiteral v) (hn : nesting ≤ limit) :
    Spells limit nesting .primary (printLiteral quoting v) (.literal v) := by
  cases v with
  | null => exact spells_word rfl (List.all_eq_true.1 rfl) .null hn
  | bool b => cases b <;> exact spells_word rfl (List.all_eq_true.1 rfl) (.bool _) hn
  | int n => exact spells_int h hn
  | str s =>
    have hquote : (quoting s).mark = '\x27' ∨ (quoting s).mark = '"' := by
      cases quoting s
      · exact .inl rfl
      · exact .inr rfl
    have := spells_quoted hquote ((quoting s).readQuoted_close s.toList) hn
    rwa [String.ofList_toList] at this
  | float x | array items | object fields => exact h.elim

/-! ## Paths -/

theorem ofWord_of_not_keyword {name : String} (h : name ∉ ["true", "false", "null"]) :
    ofWord name.toList = .ident name := by
  simp only [List.mem_cons, List.not_mem_nil, or_false, not_or, ← String.toList_inj] at h
  obtain ⟨ht, hf, hn⟩ := h
  have hcut : ofWord name.toList = .ident (String.ofList name.toList) :=
    (if_neg ht).trans ((if_neg hf).trans (if_neg hn))
  rw [hcut, String.ofList_toList]

theorem IsIdentifier.splits {name : String} (h : IsIdentifier name) {rest : List Char}
    (hr : ∀ c ∈ rest.head?, continuesIdentifier c = false) (position : Nat) :
    Splits position name.toList rest [⟨.ident name, position, name.toList⟩] := by
  obtain ⟨⟨c, cs, hname, hc, hcs⟩, hkey⟩ := h
  have hword := ofWord_of_not_keyword hkey
  rw [hname] at hword ⊢
  rw [← hword]
  exact splits_word hc hcs hr position

/-- What follows a name in a path does not continue the name. -/
theorem head?_printProperties (names : List String) {rest : List Char} (hr : EndsWord rest) :
    ∀ c ∈ (printProperties names ++ rest).head?, continuesIdentifier c = false := by
  cases names with
  | nil => exact fun c hc => (hr c hc).1
  | cons name names =>
    rintro c ⟨⟩
    rfl

theorem splits_printProperties {names : List String} (h : ∀ name ∈ names, IsIdentifier name)
    {rest : List Char} (hr : EndsWord rest) (position : Nat) :
    ∃ ts, Properties ts names ∧ Splits position (printProperties names) rest ts := by
  induction names generalizing position with
  | nil => exact ⟨[], .nil, splits_nil rest position⟩
  | cons name names ih =>
    obtain ⟨hname, hnames⟩ := List.forall_mem_cons.1 h
    obtain ⟨ts, hp, hs⟩ := ih hnames (position + utf8Length ['.'] + utf8Length name.toList)
    have hdot := splits_mark (c := '.') rfl (by decide)
      (name.toList ++ printProperties names ++ rest) position
    have hident := hname.splits (head?_printProperties names hr)
      (position + utf8Length ['.'])
    exact ⟨_, .cons rfl rfl hp, hdot.append (hident.append hs)⟩

theorem spells_path {names : List String} (hne : names ≠ [])
    (h : ∀ name ∈ names, IsIdentifier name) (hn : nesting ≤ limit) :
    Spells limit nesting .primary (printPath names) (.path names) := by
  intro rest position hr
  cases names with
  | nil => exact absurd rfl hne
  | cons name names =>
    obtain ⟨hname, hnames⟩ := List.forall_mem_cons.1 h
    obtain ⟨ts, hp, hs⟩ := splits_printProperties hnames hr (position + utf8Length name.toList)
    have hident := hname.splits (head?_printProperties names hr) position
    exact ⟨_, [0], .path rfl hp, by simpa using hn, hident.append hs⟩

/-! ## Trees -/

/-- No text of an expression begins with an equals sign, which would continue a symbol before
it. -/
theorem print_begins (quoting : Quoting) {e : Expr} (h : e.Printable) :
    ∃ c cs, e.print quoting = c :: cs ∧ c ≠ '=' := by
  cases e with
  | literal v =>
    cases v with
    | null => exact ⟨_, _, rfl, by decide⟩
    | bool b => cases b <;> exact ⟨_, _, rfl, by decide⟩
    | int n =>
      obtain ⟨c, cs, hcs, hc⟩ := displayInt_begins h
      refine ⟨c, cs, hcs, ?_⟩
      rintro rfl
      cases hc
    | str s =>
      refine ⟨_, _, rfl, ?_⟩
      cases quoting s <;> decide
    | float x | array items | object fields => exact h.elim
  | path names =>
    obtain ⟨hne, h⟩ := h
    obtain ⟨name, names, rfl⟩ := List.exists_cons_of_ne_nil hne
    obtain ⟨⟨c, cs, hname, hc, -⟩, -⟩ := h name List.mem_cons_self
    refine ⟨c, cs ++ printProperties names, by rw [print, printPath, hname]; rfl, ?_⟩
    rintro rfl
    cases hc
  | array items => exact ⟨_, _, rfl, by decide⟩
  | unary op e => exact ⟨_, _, rfl, by decide⟩
  | binary op l r => exact ⟨_, _, rfl, by decide⟩

mutual

/-- A tree takes two of the limit for each of its operators, and one for its leaves. -/
theorem spells_print (quoting : Quoting) : {nesting : Nat} → (e : Expr) → e.Printable →
    nesting + 2 * e.height + 1 ≤ limit →
    Spells limit nesting .primary (e.print quoting) e
  | _, .literal v, h, hn => spells_literal quoting h (by omega)
  | _, .path names, ⟨hne, h⟩, hn => spells_path hne h (by omega)
  | _, .array [], _, hn => spells_emptyArray (by rw [height] at hn; omega)
  | _, .array (item :: items), h, hn => by
    have hitems := spells_printItems quoting (item :: items) (List.cons_ne_nil _ _) h hn
    exact hitems.array (by omega)
  | nesting, .unary op e, h, hn => by
    have hn : nesting + 1 + 1 + 2 * e.height + 1 ≤ limit := by
      rw [height] at hn
      omega
    have hbegins : ∀ rest, (e.print quoting ++ rest).head? ≠ some '=' := by
      intro rest
      obtain ⟨c, cs, hcs, hc⟩ := print_begins quoting (e := e) h
      rw [hcs]
      simpa using hc
    have hunary : Spells limit (nesting + 1 + 1) .unary (e.print quoting) e :=
      (spells_print quoting e h hn).mono (by decide)
    exact ((hunary.unary op hbegins).mono (Nat.zero_le _)).paren
  | nesting, .binary op l r, ⟨hl, hr⟩, hn => by
    rw [height] at hn
    have hnl : nesting + 1 + 2 * l.height + 1 ≤ limit := by omega
    have hnr : nesting + 1 + (0 + 1) + 2 * r.height + 1 ≤ limit := by omega
    obtain ⟨rule, operand, ops, hj, hop⟩ := exists_joins_mem op
    have hleft := ((spells_print quoting l hl hnl).mono operand.level_le).space_after
    have hright := ((spells_print quoting r hr hnr).mono operand.level_le).space_before
    have hchain := (hleft.operand.join hright hop nofun).spells hj
    exact (hchain.mono (Nat.zero_le _)).paren

theorem spells_printItems (quoting : Quoting) : {nesting : Nat} → (items : List Expr) →
    items ≠ [] → PrintableItems items → nesting + 2 * heightItems items + 1 ≤ limit →
    SpellsItems limit (nesting + 1) (printItems quoting items) items
  | _, [], hne, _, _ => absurd rfl hne
  | nesting, [item], _, ⟨h, _⟩, hn => by
    have hn : nesting + 1 + 2 * item.height + 1 ≤ limit := by
      simp only [heightItems] at hn
      omega
    exact ((spells_print quoting item h hn).mono (Nat.zero_le _)).item
  | nesting, item :: next :: items, _, ⟨h, hs⟩, hn => by
    rw [heightItems] at hn
    have hitem : nesting + 1 + 2 * item.height + 1 ≤ limit := by omega
    have hitems : nesting + 2 * heightItems (next :: items) + 1 ≤ limit := by omega
    have hitem : Spells limit (nesting + 1) .or (item.print quoting) item :=
      (spells_print quoting item h hitem).mono (Nat.zero_le _)
    exact .cons hitem (spells_printItems quoting (next :: items) (List.cons_ne_nil _ _) hs hitems)

end

end

/-- A printable tree whose height is at most 63 is read back from its text. -/
theorem parse_print (quoting : Quoting) (e : Expr) (he : e.Printable) (hh : e.height ≤ 63) :
    Expression.parse (String.ofList (e.print quoting)) =
      .ok ⟨String.ofList (e.print quoting), e⟩ := by
  have hn : 0 + 2 * e.height + 1 ≤ maxNesting := by
    rw [maxNesting]
    omega
  have hspells : Spells maxNesting 0 .primary (e.print quoting) e :=
    spells_print quoting e he hn
  exact parse_of_spells (hspells.mono (Nat.zero_le _))

/-- An array with a string that has a quote, a backslash and a character of two bytes in it, and
with the negation of a comparison. -/
def motto : Expr :=
  .array [.literal (.str "it's \\é"),
    .unary .not (.binary .le (.path ["a", "b_1"]) (.literal (.int 9223372036854775807)))]

theorem parse_print_motto :
    motto.Printable ∧ motto.height = 3 ∧
      String.ofList (motto.print fun _ => .single) =
        "['it\\'s \\\\é', (!(a.b_1 <= 9223372036854775807))]" ∧
      Expression.parse "['it\\'s \\\\é', (!(a.b_1 <= 9223372036854775807))]" =
        .ok ⟨"['it\\'s \\\\é', (!(a.b_1 <= 9223372036854775807))]", motto⟩ := by
  have ha : IsIdentifier "a" := ⟨⟨'a', [], rfl, rfl, nofun⟩, by decide⟩
  have hb : IsIdentifier "b_1" := ⟨⟨'b', ['_', '1'], rfl, rfl, List.all_eq_true.1 rfl⟩, by decide⟩
  have hpath : (path ["a", "b_1"]).Printable := ⟨by decide, by simp [ha, hb]⟩
  have hint : (0 : Int64) ≤ 9223372036854775807 := by decide
  have hmotto : motto.Printable := ⟨trivial, ⟨hpath, hint⟩, trivial⟩
  have htext : String.ofList (motto.print fun _ => .single) =
      "['it\\'s \\\\é', (!(a.b_1 <= 9223372036854775807))]" := by decide +kernel
  have hparse := parse_print (fun _ => .single) motto hmotto (by decide)
  rw [htext] at hparse
  exact ⟨hmotto, by decide, htext, hparse⟩

end Expr

end Stencil
