import Stencil.Json.Basic
import Stencil.Number.Read

/-!
# Strings, numbers and names of JSON

The parts of a document that hold no other parts. Each reader returns a rest that is shorter than
the text that it was given.
-/

namespace Stencil.Json

/-! ## Strings -/

/-- The value of a hexadecimal digit. -/
def hexDigit? (c : Char) : Option Nat :=
  if '0' ≤ c ∧ c ≤ '9' then some (c.toNat - '0'.toNat)
  else if 'a' ≤ c ∧ c ≤ 'f' then some (c.toNat - 'a'.toNat + 10)
  else if 'A' ≤ c ∧ c ≤ 'F' then some (c.toNat - 'A'.toNat + 10)
  else none

/-- The value of four hexadecimal digits. -/
def hexUnit? (a b c d : Char) : Option Nat := do
  return ((← hexDigit? a) * 16 + (← hexDigit? b)) * 256 + (← hexDigit? c) * 16 + (← hexDigit? d)

/-- The character that a single letter after a backslash stands for. -/
def escape? : Char → Option Char
  | '"' => some '"'
  | '\\' => some '\\'
  | '/' => some '/'
  | 'b' => some '\x08'
  | 'f' => some '\x0c'
  | 'n' => some '\n'
  | 'r' => some '\r'
  | 't' => some '\t'
  | _ => none

/-- The characters up to the closing quote, and the text after it. A character outside of the basic
plane may be written as two units, the first from `0xD800` and the second from `0xDC00` on. -/
def readString : List Char → Option (List Char × List Char)
  | [] => none
  | '"' :: cs => some ([], cs)
  | '\\' :: 'u' :: a :: b :: c :: d :: cs =>
    match hexUnit? a b c d with
    | none => none
    | some unit =>
      if unit < 0xD800 || 0xDFFF < unit then
        (readString cs).map fun p => (Char.ofNat unit :: p.1, p.2)
      else if 0xDC00 ≤ unit then none
      else
        match cs with
        | '\\' :: 'u' :: a' :: b' :: c' :: d' :: cs' =>
          match hexUnit? a' b' c' d' with
          | none => none
          | some low =>
            if 0xDC00 ≤ low && low ≤ 0xDFFF then
              (readString cs').map fun p =>
                (Char.ofNat (0x10000 + (unit - 0xD800) * 0x400 + (low - 0xDC00)) :: p.1, p.2)
            else none
        | _ => none
  | '\\' :: c :: cs =>
    match escape? c with
    | some e => (readString cs).map fun p => (e :: p.1, p.2)
    | none => none
  | c :: cs => if c.toNat < 0x20 then none else (readString cs).map fun p => (c :: p.1, p.2)

theorem length_readString {cs s rest : List Char} (h : readString cs = some (s, rest)) :
    rest.length < cs.length := by
  fun_induction readString cs generalizing s with
  | case1 => cases h
  | case2 => cases h; simp
  | _ => simp_all <;> grind

/-! ## Numbers -/

/-- The digits at the beginning of a text, of which there has to be one. -/
def readDigits (cs : List Char) : Option (List Char × List Char) :=
  if (cs.takeWhile Char.isDigit).isEmpty then none
  else some (cs.takeWhile Char.isDigit, cs.dropWhile Char.isDigit)

/-- The digits after a decimal point, if there is one. -/
def readFraction : List Char → Option (List Char × List Char)
  | '.' :: cs => readDigits cs
  | cs => some ([], cs)

/-- The exponent part, if there is one. -/
def readExponent : List Char → Option (Option Int × List Char)
  | c :: cs =>
    if c = 'e' || c = 'E' then
      match cs with
      | '-' :: ds => (readDigits ds).map fun p => (some (-(Number.ofDigits p.1 : Int)), p.2)
      | '+' :: ds => (readDigits ds).map fun p => (some (Number.ofDigits p.1 : Int), p.2)
      | ds => (readDigits ds).map fun p => (some (Number.ofDigits p.1 : Int), p.2)
    else some (none, c :: cs)
  | [] => some (none, [])

/-- The number after its sign. Its integer part has no needless zeros in front. -/
def readMagnitude (negative : Bool) (cs : List Char) : Option (JsonNumber × List Char) := do
  let (whole, cs) ← readDigits cs
  if whole.head? = some '0' && whole.length ≠ 1 then none
  let (fraction, cs) ← readFraction cs
  let (exponent, cs) ← readExponent cs
  return ({ negative := negative
            mantissa := Number.ofDigits (whole ++ fraction)
            exponent := exponent.getD 0 - fraction.length
            integral := fraction.isEmpty && exponent.isNone }, cs)

/-- A number. -/
def readNumber : List Char → Option (JsonNumber × List Char)
  | '-' :: cs => readMagnitude true cs
  | cs => readMagnitude false cs

theorem length_readDigits {cs digits rest : List Char} (h : readDigits cs = some (digits, rest)) :
    rest.length < cs.length := by
  have e := congrArg List.length (List.takeWhile_append_dropWhile (p := Char.isDigit) (l := cs))
  rw [List.length_append] at e
  unfold readDigits at h
  split at h
  · cases h
  · rename_i hd
    cases h
    have : 0 < (cs.takeWhile Char.isDigit).length := List.length_pos_iff.2 (by simpa using hd)
    omega

theorem length_readFraction {cs digits rest : List Char}
    (h : readFraction cs = some (digits, rest)) : rest.length ≤ cs.length := by
  unfold readFraction at h
  split at h
  · have := length_readDigits h
    simp only [List.length_cons]
    omega
  · cases h
    exact Nat.le_refl _

theorem length_readExponent {cs rest : List Char} {e : Option Int}
    (h : readExponent cs = some (e, rest)) : rest.length ≤ cs.length := by
  unfold readExponent at h
  split at h
  · split at h
    · split at h <;>
      · obtain ⟨p, hp, he⟩ := Option.map_eq_some_iff.1 h
        obtain ⟨_, rfl⟩ := Prod.mk.inj he
        have := length_readDigits hp
        simp only [List.length_cons] at *
        omega
    · cases h
      exact Nat.le_refl _
  · cases h
    exact Nat.le_refl _

theorem length_readMagnitude {negative : Bool} {cs rest : List Char} {n : JsonNumber}
    (h : readMagnitude negative cs = some (n, rest)) : rest.length < cs.length := by
  simp only [readMagnitude, Option.bind_eq_bind, Option.bind_eq_some_iff] at h
  obtain ⟨⟨_, cs₁⟩, h₁, h⟩ := h
  split at h
  · cases h
  · simp only [Option.bind_eq_some_iff] at h
    obtain ⟨⟨_, cs₂⟩, h₂, ⟨_, cs₃⟩, h₃, h⟩ := h
    cases h
    have h₁ := length_readDigits h₁
    have h₂ := length_readFraction h₂
    have h₃ := length_readExponent h₃
    grind

theorem length_readNumber {cs rest : List Char} {n : JsonNumber}
    (h : readNumber cs = some (n, rest)) : rest.length < cs.length := by
  unfold readNumber at h
  split at h
  · have := length_readMagnitude h
    simp only [List.length_cons]
    omega
  · exact length_readMagnitude h

/-! ## Names -/

/-- The literal names. -/
def readName (cs : List Char) : Option (Json × List Char) :=
  match cs with
  | 'n' :: 'u' :: 'l' :: 'l' :: rest => some (null, rest)
  | 't' :: 'r' :: 'u' :: 'e' :: rest => some (bool true, rest)
  | 'f' :: 'a' :: 'l' :: 's' :: 'e' :: rest => some (bool false, rest)
  | _ => none

theorem length_readName {cs rest : List Char} {j : Json} (h : readName cs = some (j, rest)) :
    rest.length < cs.length := by
  unfold readName at h
  split at h <;> cases h <;> simp <;> omega

end Stencil.Json
