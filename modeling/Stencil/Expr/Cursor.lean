import Stencil.Expr.Lexer
import Stencil.Text.Utf8

/-!
# Tokens by byte offsets

The lexer as it walks over the bytes of a text: its place is a byte offset, it looks at single bytes
and cuts slices out of the text. `lexemes` gives nothing if a slice is asked for that does not begin
and end at boundaries of characters; that this does not happen, and that the tokens are those of
`tokenize`, is proved in `Stencil.Proofs.Expr.Cursor`.

Every token ends behind its begin (`lt_of_lexeme`), so that the walk comes to the end of the text.
-/

namespace Stencil

open Stencil.Text

/-- A token as a range of byte offsets. -/
structure Lexeme where
  kind : TokenKind
  start : Nat
  stop : Nat

namespace Lexeme

/-- What is cut at a place: the kind of a token and the offset behind it. Nothing comes of a slice
that cannot be taken. -/
abbrev Step := Option (Except SyntaxError (TokenKind × Nat))

/-! ## Numbers -/

/-- The end of the fraction part that may stand at `pos`. -/
def fractionEnd (source : List Char) (pos : Nat) : Nat :=
  if (peek source pos).any (· = '.') && (peek source (pos + 1)).any Char.isDigit then
    runEnd Char.isDigit source (pos + 1)
  else pos

/-- A letter that begins an exponent part. -/
def beginsExponent (c : Char) : Bool := c = 'e' || c = 'E'

/-- A sign of an exponent. -/
def isSign (c : Char) : Bool := c = '+' || c = '-'

/-- Where the digits of an exponent part begin whose letter stands at `pos`. -/
def exponentDigits (source : List Char) (pos : Nat) : Nat :=
  pos + 1 + if (peek source (pos + 1)).any isSign then 1 else 0

/-- The end of the exponent part that may stand at `pos`. -/
def exponentEnd (source : List Char) (pos : Nat) : Nat :=
  if (peek source pos).any beginsExponent &&
      (peek source (exponentDigits source pos)).any Char.isDigit then
    runEnd Char.isDigit source (exponentDigits source pos)
  else pos

/-- The float that the text of a number denotes. -/
def floatOf (text : List Char) : Float :=
  let digits := text.takeWhile Char.isDigit
  let (fraction, cs) := Token.splitFraction (text.dropWhile Char.isDigit)
  let (exponent, _) := Token.splitExponent cs
  Number.nearestFloat (Number.ofDigits (digits ++ fraction.tail))
    (Token.exponentValue exponent - fraction.tail.length)

/-- The integer that the text of a number denotes. -/
def integerOf (text : List Char) : Except SyntaxFault TokenKind :=
  match int64? (Number.ofDigits text) with
  | some n => .ok (.int n)
  | none => .error (.integerOutOfRange (String.ofList text))

/-- A number: a float if a fraction or an exponent part follows the digits, else an integer. -/
def number (source : List Char) (start : Nat) : Step :=
  let digits := runEnd Char.isDigit source start
  let stop := exponentEnd source (fractionEnd source digits)
  (slice? start stop source).map fun text =>
    if stop = digits then
      match integerOf text with
      | .ok kind => .ok (kind, stop)
      | .error fault => .error ⟨start, fault⟩
    else .ok (.float (floatOf text), stop)

/-! ## Strings, words and symbols -/

/-- The characters of a string, and the number of bytes up to and with the closing quote. -/
def scanString (quote : Char) : Nat → List Char → Option (List Char × Nat)
  | _, [] => none
  | _, ['\\'] => none
  | offset, '\\' :: c :: cs =>
    (scanString quote (offset + '\\'.utf8Size + c.utf8Size) cs).map fun p =>
      (Token.unescape c :: p.1, p.2)
  | offset, c :: cs =>
    if c = quote then some ([], offset + 1)
    else (scanString quote (offset + c.utf8Size) cs).map fun p => (c :: p.1, p.2)

/-- A string; its text is looked at character by character behind the opening quote. -/
def string (source : List Char) (start : Nat) (quote : Char) : Step :=
  (slice? (start + 1) (utf8Bytes source).length source).map fun text =>
    match scanString quote 0 text with
    | some (value, n) => .ok (.str (String.ofList value), start + 1 + n)
    | none => .error ⟨start, .unterminatedString⟩

/-- An identifier or a literal name. -/
def identifier (source : List Char) (start : Nat) : Step :=
  let stop := runEnd Token.continuesIdentifier source start
  (slice? start stop source).map fun word => .ok (Token.ofWord word, stop)

/-- A symbol whose first byte is `c`; what is no symbol is reported as the character it is. -/
def operator (source : List Char) (start : Nat) (c : Char) : Step :=
  match (peek source (start + 1)).bind (Token.symbol₂ c) with
  | some kind => some (.ok (kind, start + 2))
  | none =>
    match Token.symbol₁ c with
    | some kind => some (.ok (kind, start + 1))
    | none =>
      (slice? start (utf8Bytes source).length source).map fun rest =>
        .error ⟨start, .unexpectedCharacter (rest.headD '?')⟩

/-! ## Texts -/

/-- The token whose first byte is `c`. -/
def lexeme (source : List Char) (start : Nat) (c : Char) : Step :=
  if c.isDigit then number source start
  else if c = '\x27' || c = '"' then string source start c
  else if Token.beginsIdentifier c then identifier source start
  else operator source start c

theorem le_runEnd (p : Char → Bool) (source : List Char) (pos : Nat) :
    pos ≤ runEnd p source pos := by
  fun_induction runEnd p source pos with
  | case1 => exact Nat.le_refl _
  | case2 pos c _ _ _ ih => exact Nat.le_of_succ_le ih
  | case3 => exact Nat.le_refl _

/-- A byte of the class is part of the run. -/
theorem lt_runEnd {p : Char → Bool} {source : List Char} {pos : Nat} {c : Char}
    (h : peek source pos = some c) (hc : p c = true) : pos < runEnd p source pos := by
  rw [runEnd]
  split
  · rename_i hn
    cases h.symm.trans hn
  · rename_i d hd
    cases h.symm.trans hd
    rw [if_pos hc]
    exact le_runEnd p source (pos + 1)

theorem le_fractionEnd (source : List Char) (pos : Nat) : pos ≤ fractionEnd source pos := by
  unfold fractionEnd
  split
  · exact Nat.le_of_succ_le (le_runEnd _ _ _)
  · exact Nat.le_refl _

theorem le_exponentEnd (source : List Char) (pos : Nat) : pos ≤ exponentEnd source pos := by
  unfold exponentEnd
  split
  · have hdigits : pos ≤ exponentDigits source pos := by
      rw [exponentDigits]
      omega
    exact Nat.le_trans hdigits (le_runEnd _ _ _)
  · exact Nat.le_refl _

theorem lt_of_number {source : List Char} {start stop : Nat} {kind : TokenKind} {c : Char}
    (hc : peek source start = some c) (hd : c.isDigit = true)
    (h : number source start = some (.ok (kind, stop))) : start < stop := by
  obtain ⟨text, -, h⟩ := Option.map_eq_some_iff.1 h
  have hrun := lt_runEnd (p := Char.isDigit) hc hd
  have hfraction := le_fractionEnd source (runEnd Char.isDigit source start)
  have hexponent :=
    le_exponentEnd source (fractionEnd source (runEnd Char.isDigit source start))
  split at h
  · split at h
    · cases h
      omega
    · cases h
  · cases h
    omega

/-- A token ends behind its begin. -/
theorem lt_of_lexeme {source : List Char} {start stop : Nat} {kind : TokenKind} {c : Char}
    (hc : peek source start = some c) (h : lexeme source start c = some (.ok (kind, stop))) :
    start < stop := by
  unfold lexeme at h
  split at h
  · rename_i hd
    exact lt_of_number hc hd h
  · split at h
    · obtain ⟨text, -, h⟩ := Option.map_eq_some_iff.1 h
      split at h
      · cases h
        omega
      · cases h
    · split at h
      · rename_i hb
        obtain ⟨word, -, h⟩ := Option.map_eq_some_iff.1 h
        cases h
        refine lt_runEnd hc ?_
        simp only [Token.beginsIdentifier, Token.continuesIdentifier, Char.isAlphanum,
          Bool.or_eq_true] at hb ⊢
        exact hb.imp_left .inl
      · unfold operator at h
        split at h
        · cases h
          omega
        · split at h
          · cases h
            omega
          · obtain ⟨rest, -, h⟩ := Option.map_eq_some_iff.1 h
            cases h

/-- The tokens from `pos` on and the offset where the text ends. -/
def lexemesFrom (source : List Char) (pos : Nat) :
    Option (Except SyntaxError (List Lexeme × Nat)) :=
  let start := runEnd Token.isBlank source pos
  match hc : peek source start with
  | none => some (.ok ([], start))
  | some c =>
    match h : lexeme source start c with
    | none => none
    | some (.error e) => some (.error e)
    | some (.ok (kind, stop)) =>
      have := lt_of_peek_eq_some hc
      have := lt_of_lexeme hc h
      have := le_runEnd Token.isBlank source pos
      (lexemesFrom source stop).map fun r => r.map fun p => (⟨kind, start, stop⟩ :: p.1, p.2)
termination_by (utf8Bytes source).length - pos

/-- The tokens of a text and the offset where it ends. -/
def lexemes (source : List Char) : Option (Except SyntaxError (List Lexeme × Nat)) :=
  lexemesFrom source 0

end Lexeme

end Stencil
