import Mathlib.Data.List.TakeWhile
import Stencil.Markup.Identifier
import Stencil.Proofs.Expr.RoundTrip

/-!
# Names in templates and in expressions

A loop variable may be made of any letters (`Markup.isIdentifier`), but a name in an expression of
ASCII characters only, and the words `true`, `false` and `null` are literals there
(`Expr.IsIdentifier`). So an expression that is the name of a loop variable is read as the path to
this variable, as a literal, or not at all (`parse_name`).
-/

namespace Stencil

open Text

namespace Token

/-! ## ASCII characters -/

/-- Among ASCII characters letters and digits are the same for both kinds of names. -/
theorem isAlphabetic_eq_isAlpha {c : Char} (h : c.toNat < 128) :
    isAlphabetic c = c.isAlpha ∧ isAlphanumeric c = c.isAlphanum := by
  have hall : ∀ n < 128, isAlphabetic (Char.ofNat n) = (Char.ofNat n).isAlpha ∧
      isAlphanumeric (Char.ofNat n) = (Char.ofNat n).isAlphanum := by decide +kernel
  have hc := hall c.toNat h
  rwa [Char.ofNat_toNat] at hc

/-- What makes up tokens outside of strings is ASCII. -/
theorem eq_false_of_le {c : Char} (h : 128 ≤ c.toNat) :
    c.isDigit = false ∧ beginsIdentifier c = false ∧ continuesIdentifier c = false ∧
      isBlank c = false := by
  have hval : 128 ≤ c.val.toNat := h
  have hne {d : Char} (hd : d.toNat < 128) : c ≠ d := fun he => by
    rw [he] at h
    omega
  have hdigit : c.isDigit = false := by
    refine Bool.and_eq_false_imp.2 fun _ => decide_eq_false fun hle => ?_
    have : c.val.toNat ≤ 57 := hle
    omega
  have hupper : c.isUpper = false := by
    refine decide_eq_false ?_
    rintro ⟨-, hle⟩
    have : c.val.toNat ≤ 90 := hle
    omega
  have hlower : c.isLower = false := by
    refine Bool.and_eq_false_imp.2 fun _ => decide_eq_false fun hle => ?_
    have : c.val.toNat ≤ 122 := hle
    omega
  have halpha : c.isAlpha = false := Bool.or_eq_false_iff.2 ⟨hupper, hlower⟩
  have hline : c ≠ '_' := hne (by decide)
  refine ⟨hdigit, by simp [beginsIdentifier, halpha, hline],
    by simp [continuesIdentifier, Char.isAlphanum, halpha, hdigit, hline], ?_⟩
  simp only [isBlank, Bool.or_eq_false_iff, decide_eq_false_iff_not]
  exact ⟨⟨⟨⟨hne (by decide), hne (by decide)⟩, hne (by decide)⟩, hne (by decide)⟩, hne (by decide)⟩

/-- No token but a string holds a character that is not ASCII. -/
theorem readToken_of_le {c : Char} (h : 128 ≤ c.toNat) (cs : List Char) :
    readToken c cs = .error (.unexpectedCharacter c) := by
  obtain ⟨hdigit, hbegins, -, -⟩ := eq_false_of_le h
  have hquote : ¬ (c = '\x27' || c = '"') = true := by
    simp only [Bool.or_eq_true, decide_eq_true_eq]
    rintro (rfl | rfl) <;> exact absurd h (by decide)
  have hlong : cs.head?.bind (symbol₂ c) = none := by
    cases cs with
    | nil => rfl
    | cons d cs =>
      show symbol₂ c d = none
      unfold symbol₂
      split <;> first | rfl | exact absurd h (by decide)
  have hshort : symbol₁ c = none := by
    unfold symbol₁
    split <;> first | rfl | exact absurd h (by decide)
  rw [readToken, hdigit, if_neg Bool.false_ne_true, if_neg hquote, hbegins,
    if_neg Bool.false_ne_true, readSymbol, hlong, hshort]

/-- A word is cut off, and the character behind it is refused. -/
theorem tokenize_of_le {c : Char} (h : 128 ≤ c.toNat) {word : List Char}
    (hbegins : ∀ d ∈ word.head?, beginsIdentifier d = true)
    (hword : ∀ d ∈ word, continuesIdentifier d = true) (cs : List Char) :
    tokenize (word ++ c :: cs) = .error ⟨utf8Length word, .unexpectedCharacter c⟩ := by
  obtain ⟨-, -, hcontinues, hblank⟩ := eq_false_of_le h
  have hrefused (position : Nat) :
      tokenizeFrom position (c :: cs) = .error ⟨position, .unexpectedCharacter c⟩ := by
    rw [tokenizeFrom, hblank, if_neg Bool.false_ne_true]
    split
    · rename_i hf
      cases (readToken_of_le h cs).symm.trans hf
      rfl
    · rename_i hf
      cases (readToken_of_le h cs).symm.trans hf
  cases word with
  | nil => exact hrefused 0
  | cons d word =>
    have hends : ∀ e ∈ (c :: cs).head?, continuesIdentifier e = false := by
      rintro _ ⟨⟩
      exact hcontinues
    have hsplits := splits_word (hbegins d rfl)
      (fun e he => hword e (List.mem_cons_of_mem d he)) hends 0
    rw [tokenize, hsplits, hrefused, Nat.zero_add]
    rfl

end Token

namespace Expr

/-! ## The names of loop variables -/

variable {cs : List Char}

/-- Up to a character that is not ASCII an identifier is a word of expressions. -/
theorem isWord_of_isIdentifier (h : Markup.isIdentifier cs = true) {word rest : List Char}
    (hcs : cs = word ++ rest) (hascii : ∀ c ∈ word, c.toNat < 128) :
    (∀ c ∈ word.head?, Token.beginsIdentifier c = true) ∧
      ∀ c ∈ word, Token.continuesIdentifier c = true := by
  subst hcs
  cases word with
  | nil => exact ⟨nofun, nofun⟩
  | cons c word =>
    obtain ⟨hc, hword⟩ := List.forall_mem_cons.1 hascii
    rw [List.cons_append, Markup.isIdentifier, Bool.and_eq_true, List.all_append,
      Bool.and_eq_true, List.all_eq_true] at h
    obtain ⟨hfirst, hmore, -⟩ := h
    rw [(Token.isAlphabetic_eq_isAlpha hc).1] at hfirst
    refine ⟨fun d hd => Option.mem_some_iff.1 hd ▸ hfirst, List.forall_mem_cons.2 ⟨?_, ?_⟩⟩
    · exact Token.continuesIdentifier_of_beginsIdentifier hfirst
    · intro d hd
      have hd' := hmore d hd
      rwa [(Token.isAlphabetic_eq_isAlpha (hword d hd)).2] at hd'

theorem parse_keyword {name : String} (h : name ∈ ["true", "false", "null"]) :
    ∃ value, Expression.parse name = .ok ⟨name, .literal value⟩ := by
  have hspells (c : Char) (cs : List Char) {v : Value} (hc : Token.beginsIdentifier c = true)
      (hcs : ∀ d ∈ cs, Token.continuesIdentifier d = true)
      (hv : Literal (Token.ofWord (c :: cs)) v) :
      Expression.parse (String.ofList (c :: cs)) = .ok ⟨String.ofList (c :: cs), .literal v⟩ :=
    parse_of_spells ((spells_word hc hcs hv (Nat.zero_le _)).mono (Nat.zero_le _))
  simp only [List.mem_cons, List.not_mem_nil, or_false] at h
  rcases h with rfl | rfl | rfl
  · exact ⟨_, hspells 't' ['r', 'u', 'e'] rfl (List.all_eq_true.1 rfl) (.bool true)⟩
  · exact ⟨_, hspells 'f' ['a', 'l', 's', 'e'] rfl (List.all_eq_true.1 rfl) (.bool false)⟩
  · exact ⟨_, hspells 'n' ['u', 'l', 'l'] rfl (List.all_eq_true.1 rfl) .null⟩

theorem parse_identifier {name : String} (h : IsIdentifier name) :
    Expression.parse name = .ok ⟨name, .path [name]⟩ := by
  have hspells : Spells maxNesting 0 .primary (printPath [name]) (.path [name]) :=
    spells_path (List.cons_ne_nil name []) (List.forall_mem_singleton.2 h) (Nat.zero_le _)
  have hparse := parse_of_spells (hspells.mono (Nat.zero_le _))
  rwa [printPath, printProperties, List.append_nil, String.ofList_toList] at hparse

/-- The first character that is not ASCII is refused. -/
theorem parse_of_le {name : String} (h : Markup.isIdentifier name.toList = true)
    {word rest : List Char} {c : Char} (hname : name.toList = word ++ c :: rest)
    (hascii : ∀ e ∈ word, e.toNat < 128) (hc : 128 ≤ c.toNat) :
    Expression.parse name =
      .error (.invalidExpression name ⟨utf8Length word, .unexpectedCharacter c⟩) := by
  obtain ⟨hbegins, hcontinues⟩ := isWord_of_isIdentifier h hname hascii
  have htokens := Token.tokenize_of_le hc hbegins hcontinues rest
  rw [← hname] at htokens
  rw [Expression.parse, Expr.parse, htokens]

/-- A name of a loop variable is read as the path to it, or it is a keyword, or its first character
that is not ASCII is refused. -/
theorem parse_name {name : String} (h : Markup.isIdentifier name.toList = true) :
    IsIdentifier name ∧ Expression.parse name = .ok ⟨name, .path [name]⟩ ∨
      (name ∈ ["true", "false", "null"] ∧
        ∃ value, Expression.parse name = .ok ⟨name, .literal value⟩) ∨
      ∃ word c rest, name.toList = word ++ c :: rest ∧ (∀ e ∈ word, e.toNat < 128) ∧
        128 ≤ c.toNat ∧ Expression.parse name =
          .error (.invalidExpression name ⟨utf8Length word, .unexpectedCharacter c⟩) := by
  let ascii := fun c : Char => decide (c.toNat < 128)
  have hsplit := List.takeWhile_append_dropWhile (p := ascii) (l := name.toList)
  have hword : ∀ c ∈ name.toList.takeWhile ascii, c.toNat < 128 :=
    fun c hc => of_decide_eq_true (List.mem_takeWhile_imp (p := ascii) hc)
  cases hrest : name.toList.dropWhile ascii with
  | nil =>
    obtain ⟨hbegins, hcontinues⟩ := isWord_of_isIdentifier h hsplit.symm hword
    rw [hrest, List.append_nil] at hsplit
    rw [hsplit] at hbegins hcontinues
    by_cases hkey : name ∈ ["true", "false", "null"]
    · exact .inr (.inl ⟨hkey, parse_keyword hkey⟩)
    · have hident : IsIdentifier name := by
        cases hname : name.toList with
        | nil =>
          rw [hname] at h
          cases h
        | cons c cs =>
          rw [hname] at hbegins hcontinues
          exact ⟨⟨c, cs, hname, hbegins c rfl,
            fun d hd => hcontinues d (List.mem_cons_of_mem c hd)⟩, hkey⟩
      exact .inl ⟨hident, parse_identifier hident⟩
  | cons c rest =>
    have hc : 128 ≤ c.toNat := by
      have hhead := List.head?_dropWhile_not ascii name.toList
      rw [hrest] at hhead
      simpa [ascii] using hhead
    rw [hrest] at hsplit
    exact .inr (.inr ⟨_, c, rest, hsplit.symm, hword, hc, parse_of_le h hsplit.symm hword hc⟩)

end Expr

end Stencil
