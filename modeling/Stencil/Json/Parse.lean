import Stencil.Json.Scalar

/-!
# Reading JSON documents

`Json.parse` reads a whole document; a text that is none has no value. A value may have blanks
before it, and what follows it is returned together with a proof that it is shorter than the text
that was read. That is the measure of the recursion.
-/

namespace Stencil.Json

/-- A blank of JSON. -/
def isSpace (c : Char) : Bool := c = ' ' || c = '\t' || c = '\n' || c = '\r'

/-- The text without the blanks at its beginning. -/
def skip (cs : List Char) : List Char := cs.dropWhile isSpace

theorem length_skip_le (cs : List Char) : (skip cs).length ≤ cs.length := by
  have e := congrArg List.length (List.takeWhile_append_dropWhile (p := isSpace) (l := cs))
  rw [List.length_append] at e
  simp only [skip]
  omega

/-- A value and the text after it, which is shorter than the text that was read. -/
abbrev Reading (α : Type) (cs : List Char) :=
  Option (α × { rest : List Char // rest.length < cs.length })

/-- A string, number or literal name. -/
def readScalar (cs : List Char) : Reading Json cs :=
  match cs with
  | '"' :: rest =>
    match h : readString rest with
    | some (s, tail) =>
      some (str (String.ofList s), ⟨tail, Nat.lt_succ_of_lt (length_readString h)⟩)
    | none => none
  | cs =>
    match h : readName cs with
    | some (j, tail) => some (j, ⟨tail, length_readName h⟩)
    | none =>
      match h : readNumber cs with
      | some (n, tail) => some (number n, ⟨tail, length_readNumber h⟩)
      | none => none

mutual

/-- The value that begins here, after blanks. -/
def readValue (cs : List Char) : Reading Json cs :=
  match h : skip cs with
  | [] => none
  | c :: rest =>
    have hr : rest.length < cs.length := by
      have := length_skip_le cs
      rw [h, List.length_cons] at this
      omega
    if c = '[' then
      match hs : skip rest with
      | ']' :: tail =>
        some (array [], ⟨tail, by
          have := length_skip_le rest
          rw [hs, List.length_cons] at this
          omega⟩)
      | _ => (readItems rest).map fun p => (array p.1, ⟨p.2.1, Nat.lt_trans p.2.2 hr⟩)
    else if c = '\x7b' then
      match hs : skip rest with
      | '\x7d' :: tail =>
        some (object [], ⟨tail, by
          have := length_skip_le rest
          rw [hs, List.length_cons] at this
          omega⟩)
      | _ => (readFields rest).map fun p => (object p.1, ⟨p.2.1, Nat.lt_trans p.2.2 hr⟩)
    else
      (readScalar (c :: rest)).map fun p => (p.1, ⟨p.2.1, by
        have := length_skip_le cs
        have := p.2.2
        rw [h] at *
        omega⟩)
termination_by (cs.length, 0)

/-- The items of an array and the text after its closing bracket. -/
def readItems (cs : List Char) : Reading (List Json) cs :=
  match readValue cs with
  | none => none
  | some (item, ⟨rest, hr⟩) =>
    match hs : skip rest with
    | ']' :: tail =>
      some ([item], ⟨tail, by
        have := length_skip_le rest
        rw [hs, List.length_cons] at this
        omega⟩)
    | ',' :: tail =>
      have ht : tail.length < cs.length := by
        have := length_skip_le rest
        rw [hs, List.length_cons] at this
        omega
      (readItems tail).map fun p => (item :: p.1, ⟨p.2.1, Nat.lt_trans p.2.2 ht⟩)
    | _ => none
termination_by (cs.length, 1)

/-- The fields of an object and the text after its closing brace. -/
def readFields (cs : List Char) : Reading (List (String × Json)) cs :=
  match hn : skip cs with
  | '"' :: quoted =>
    match hq : readString quoted with
    | none => none
    | some (name, rest) =>
      match hc : skip rest with
      | ':' :: after =>
        have ha : after.length < cs.length := by
          have h₁ := length_skip_le cs
          have h₂ := length_readString hq
          have h₃ := length_skip_le rest
          rw [hn, List.length_cons] at h₁
          rw [hc, List.length_cons] at h₃
          omega
        match readValue after with
        | none => none
        | some (value, ⟨rest, hr⟩) =>
          match hs : skip rest with
          | '\x7d' :: tail =>
            some ([(String.ofList name, value)], ⟨tail, by
              have := length_skip_le rest
              rw [hs, List.length_cons] at this
              omega⟩)
          | ',' :: tail =>
            have ht : tail.length < cs.length := by
              have := length_skip_le rest
              rw [hs, List.length_cons] at this
              omega
            (readFields tail).map fun p =>
              ((String.ofList name, value) :: p.1, ⟨p.2.1, Nat.lt_trans p.2.2 ht⟩)
          | _ => none
      | _ => none
  | _ => none
termination_by (cs.length, 1)

end

/-- The document that a text is; blanks may surround it. -/
def parse (text : String) : Option Json :=
  match readValue text.toList with
  | some (j, ⟨rest, _⟩) => if (skip rest).isEmpty then some j else none
  | none => none

end Stencil.Json
