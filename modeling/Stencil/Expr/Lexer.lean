import Stencil.Expr.Token
import Stencil.Number.Integer
import Stencil.Number.Read
import Stencil.Text.Bytes

/-!
# From text to tokens

`readToken` cuts the first token off a text that does not begin with a blank: what it was read from
and the rest make up the text (`readToken_eq`), and it is not empty. `tokenize` repeats this and
notes where each token begins. Outside of strings the language is made of ASCII characters only.
-/

namespace Stencil

open Stencil.Text

namespace Token

/-- A character that separates tokens. -/
def isBlank (c : Char) : Bool := c = ' ' || c = '\t' || c = '\n' || c = '\x0c' || c = '\r'

/-- A character that begins an identifier. -/
def beginsIdentifier (c : Char) : Bool := c.isAlpha || c = '_'

/-- A character that continues an identifier. -/
def continuesIdentifier (c : Char) : Bool := c.isAlphanum || c = '_'

/-- A token kind, the characters it was read from, and the text after them. -/
structure Cut where
  kind : TokenKind
  text : List Char
  rest : List Char

/-! ## Numbers -/

/-- The fraction part of a number: a point counts only with a digit after it. -/
def splitFraction : List Char → List Char × List Char
  | '.' :: c :: cs =>
    if c.isDigit then ('.' :: (c :: cs).takeWhile Char.isDigit, (c :: cs).dropWhile Char.isDigit)
    else ([], '.' :: c :: cs)
  | cs => ([], cs)

/-- The sign of an exponent. -/
def splitSign : List Char → List Char × List Char
  | c :: cs => if c = '+' || c = '-' then ([c], cs) else ([], c :: cs)
  | [] => ([], [])

/-- The exponent part of a number: the letter counts only with digits after it. -/
def splitExponent : List Char → List Char × List Char
  | c :: cs =>
    if (c = 'e' || c = 'E') && (splitSign cs).2.head?.any Char.isDigit then
      (c :: (splitSign cs).1 ++ (splitSign cs).2.takeWhile Char.isDigit,
        (splitSign cs).2.dropWhile Char.isDigit)
    else ([], c :: cs)
  | [] => ([], [])

/-- The exponent that an exponent part denotes. -/
def exponentValue (part : List Char) : Int :=
  let (sign, digits) := splitSign part.tail
  if sign = ['-'] then -(Number.ofDigits digits : Int) else Number.ofDigits digits

/-- A number. Without a fraction and an exponent part it is an integer and has to fit 64 bits. -/
def readNumber (cs : List Char) : Except SyntaxFault Cut :=
  let digits := cs.takeWhile Char.isDigit
  let (fraction, cs) := splitFraction (cs.dropWhile Char.isDigit)
  let (exponent, cs) := splitExponent cs
  if fraction.isEmpty && exponent.isEmpty then
    match int64? (Number.ofDigits digits) with
    | some n => .ok ⟨.int n, digits, cs⟩
    | none => .error (.integerOutOfRange (String.ofList digits))
  else
    let x := Number.nearestFloat (Number.ofDigits (digits ++ fraction.tail))
      (exponentValue exponent - fraction.tail.length)
    .ok ⟨.float x, digits ++ fraction ++ exponent, cs⟩

/-! ## Strings -/

/-- What a backslash and the character after it stand for in a string. -/
def unescape (c : Char) : Char :=
  if c = 'n' then '\n' else if c = 't' then '\t' else if c = 'r' then '\r' else c

/-- The characters of a string, the text up to and with the closing quote, and the rest. -/
def readQuoted (quote : Char) : List Char → Option (List Char × List Char × List Char)
  | [] => none
  | ['\\'] => none
  | '\\' :: c :: cs =>
    (readQuoted quote cs).map fun p => (unescape c :: p.1, '\\' :: c :: p.2.1, p.2.2)
  | c :: cs =>
    if c = quote then some ([], [c], cs)
    else (readQuoted quote cs).map fun p => (c :: p.1, c :: p.2.1, p.2.2)

/-- A string after its opening quote. -/
def readString (quote : Char) (cs : List Char) : Except SyntaxFault Cut :=
  match readQuoted quote cs with
  | some (value, text, rest) => .ok ⟨.str (String.ofList value), quote :: text, rest⟩
  | none => .error .unterminatedString

/-! ## Words and symbols -/

/-- The token that a word is: a literal name or an identifier. -/
def ofWord (word : List Char) : TokenKind :=
  if word = ['t', 'r', 'u', 'e'] then .bool true
  else if word = ['f', 'a', 'l', 's', 'e'] then .bool false
  else if word = ['n', 'u', 'l', 'l'] then .null
  else .ident (String.ofList word)

/-- The token of a symbol of two characters. -/
def symbol₂ (c d : Char) : Option TokenKind :=
  match c, d with
  | '=', '=' => some (.op .eq)
  | '!', '=' => some (.op .ne)
  | '<', '=' => some (.op .le)
  | '>', '=' => some (.op .ge)
  | '&', '&' => some (.op .and)
  | '|', '|' => some (.op .or)
  | _, _ => none

/-- The token of a symbol of one character. -/
def symbol₁ : Char → Option TokenKind
  | '<' => some (.op .lt)
  | '>' => some (.op .gt)
  | '!' => some .bang
  | '+' => some (.op .add)
  | '-' => some (.op .sub)
  | '*' => some (.op .mul)
  | '/' => some (.op .div)
  | '%' => some (.op .rem)
  | '.' => some .dot
  | ',' => some .comma
  | '(' => some .openParen
  | ')' => some .closeParen
  | '[' => some .openBracket
  | ']' => some .closeBracket
  | _ => none

/-- A symbol; of two that fit, the longer one. -/
def readSymbol (c : Char) (cs : List Char) : Except SyntaxFault Cut :=
  match cs.head?.bind (symbol₂ c) with
  | some kind => .ok ⟨kind, c :: cs.take 1, cs.drop 1⟩
  | none =>
    match symbol₁ c with
    | some kind => .ok ⟨kind, [c], cs⟩
    | none => .error (.unexpectedCharacter c)

/-! ## Texts -/

/-- The token that begins with `c`. -/
def readToken (c : Char) (cs : List Char) : Except SyntaxFault Cut :=
  if c.isDigit then readNumber (c :: cs)
  else if c = '\x27' || c = '"' then readString c cs
  else if beginsIdentifier c then
    .ok ⟨ofWord (c :: cs.takeWhile continuesIdentifier), c :: cs.takeWhile continuesIdentifier,
      cs.dropWhile continuesIdentifier⟩
  else readSymbol c cs

theorem splitFraction_eq (cs : List Char) : (splitFraction cs).1 ++ (splitFraction cs).2 = cs := by
  unfold splitFraction
  split
  · split
    · rw [List.cons_append, List.takeWhile_append_dropWhile]
    · rfl
  · rfl

theorem splitSign_eq (cs : List Char) : (splitSign cs).1 ++ (splitSign cs).2 = cs := by
  unfold splitSign
  split
  · split <;> rfl
  · rfl

theorem splitExponent_eq (cs : List Char) : (splitExponent cs).1 ++ (splitExponent cs).2 = cs := by
  unfold splitExponent
  split
  · split
    · rw [List.cons_append, List.cons_append, List.append_assoc, List.takeWhile_append_dropWhile,
        splitSign_eq]
    · rfl
  · rfl

theorem readNumber_eq {c : Char} {cs : List Char} {cut : Cut} (hc : c.isDigit = true)
    (h : readNumber (c :: cs) = .ok cut) : cut.text ++ cut.rest = c :: cs ∧ cut.text ≠ [] := by
  have hd : (c :: cs).takeWhile Char.isDigit ≠ [] := by simp [hc]
  have h₁ := List.takeWhile_append_dropWhile (p := Char.isDigit) (l := c :: cs)
  have h₂ := splitFraction_eq ((c :: cs).dropWhile Char.isDigit)
  have h₃ := splitExponent_eq (splitFraction ((c :: cs).dropWhile Char.isDigit)).2
  simp only [readNumber] at h
  split at h
  · rename_i he
    simp only [Bool.and_eq_true, List.isEmpty_iff] at he
    split at h
    · cases h
      rw [he.1, List.nil_append] at h₂
      rw [he.2, List.nil_append] at h₃
      exact ⟨by rw [h₃, h₂, h₁], hd⟩
    · cases h
  · cases h
    exact ⟨by simp only [List.append_assoc, h₃, h₂, h₁], by simp [hd]⟩

theorem readQuoted_eq {quote : Char} {cs value text rest : List Char}
    (h : readQuoted quote cs = some (value, text, rest)) : cs = text ++ rest := by
  fun_induction readQuoted quote cs generalizing value text with
  | case1 => cases h
  | case2 => cases h
  | case3 c cs ih =>
    obtain ⟨p, hp, he⟩ := Option.map_eq_some_iff.1 h
    cases he
    rw [ih hp]
    rfl
  | case4 =>
    cases h
    rfl
  | case5 c cs _ _ _ ih =>
    obtain ⟨p, hp, he⟩ := Option.map_eq_some_iff.1 h
    cases he
    rw [ih hp]
    rfl

/-- A token and the rest make up the text, and a token is not empty. -/
theorem readToken_eq {c : Char} {cs : List Char} {cut : Cut} (h : readToken c cs = .ok cut) :
    cut.text ++ cut.rest = c :: cs ∧ cut.text ≠ [] := by
  unfold readToken at h
  split at h
  · rename_i hc
    exact readNumber_eq hc h
  · split at h
    · unfold readString at h
      split at h
      · rename_i hq
        cases h
        exact ⟨by rw [List.cons_append, ← readQuoted_eq hq], by simp⟩
      · cases h
    · split at h
      · cases h
        exact ⟨by rw [List.cons_append, List.takeWhile_append_dropWhile], by simp⟩
      · unfold readSymbol at h
        split at h
        · cases h
          exact ⟨by rw [List.cons_append, List.take_append_drop], by simp⟩
        · split at h
          · cases h
            exact ⟨rfl, by simp⟩
          · cases h

theorem length_rest_le {c : Char} {cs : List Char} {cut : Cut} (h : readToken c cs = .ok cut) :
    cut.rest.length ≤ cs.length := by
  obtain ⟨h, hn⟩ := readToken_eq h
  have h := congrArg List.length h
  have := List.length_pos_iff.2 hn
  simp only [List.length_append, List.length_cons] at h
  omega

/-- The tokens of a text that begins at the byte offset `position`. -/
def tokenizeFrom (position : Nat) : List Char → Except SyntaxError (List Token)
  | [] => .ok []
  | c :: cs =>
    if isBlank c then tokenizeFrom (position + c.utf8Size) cs
    else
      match h : readToken c cs with
      | .error fault => .error ⟨position, fault⟩
      | .ok cut =>
        have := length_rest_le h
        match tokenizeFrom (position + utf8Length cut.text) cut.rest with
        | .error e => .error e
        | .ok tokens => .ok (⟨cut.kind, position, cut.text⟩ :: tokens)
termination_by cs => cs.length

/-- The tokens of a text. -/
def tokenize (cs : List Char) : Except SyntaxError (List Token) := tokenizeFrom 0 cs

end Token

end Stencil
