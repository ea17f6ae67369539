import Stencil.Fields
import Stencil.Text.WhiteSpace
import Stencil.Text.Word

/-!
# Attribute lists

The attribute list of a tag is a sequence of `name:'value'` items, separated by white space, a
comma, or both. A name is a run of word characters. In a value a backslash before a quote or before
a backslash stands for that character, and any other backslash for itself.

A text that departs anywhere from this form has no attributes at all.

* `readQuoted` and `readAttribute` read one value and one item, and return a shorter rest
  (`length_readAttribute`);
* `Attributes.parse` reads a whole list; of two items of one name the later one counts.
-/

namespace Stencil.Markup

open Stencil.Text

/-- The attributes of a tag, in the order of their names. -/
abbrev Attributes := Fields String

namespace Attributes

/-- What a backslash and the character after it stand for in a value. -/
def unescape (c : Char) : List Char := if c = '\x27' || c = '\\' then [c] else ['\\', c]

/-- The value of an opened quote and the text after its closing quote. -/
def readQuoted : List Char → Option (List Char × List Char)
  | [] => none
  | ['\\'] => none
  | '\\' :: c :: cs =>
    (readQuoted cs).map fun p => (unescape c ++ p.1, p.2)
  | c :: cs => if c = '\x27' then some ([], cs) else (readQuoted cs).map fun p => (c :: p.1, p.2)

/-- The value after the name of an item: a colon and a quoted text, with white space around the
colon. -/
def readValue (cs : List Char) : Option (List Char × List Char) :=
  match trimStart cs with
  | ':' :: rest =>
    match trimStart rest with
    | c :: quoted => if c = '\x27' then readQuoted quoted else none
    | [] => none
  | _ => none

/-- The item that begins here, and the text after it. -/
def readAttribute (cs : List Char) : Option ((String × String) × List Char) :=
  match cs.takeWhile isWord with
  | [] => none
  | c :: name =>
    (readValue (cs.dropWhile isWord)).map fun p =>
      ((String.ofList (c :: name), String.ofList p.1), p.2)

theorem length_readQuoted {cs value rest : List Char} (h : readQuoted cs = some (value, rest)) :
    rest.length < cs.length := by
  fun_induction readQuoted cs generalizing value with
  | case1 => cases h
  | case2 => cases h
  | case3 c cs ih =>
    obtain ⟨p, hp, he⟩ := Option.map_eq_some_iff.1 h
    obtain ⟨rfl, rfl⟩ := Prod.mk.inj he
    have := ih hp
    simp only [List.length_cons]
    omega
  | case4 =>
    obtain ⟨rfl, rfl⟩ := Prod.mk.inj (Option.some.inj h)
    simp
  | case5 c cs _ _ _ ih =>
    obtain ⟨p, hp, he⟩ := Option.map_eq_some_iff.1 h
    obtain ⟨rfl, rfl⟩ := Prod.mk.inj he
    have := ih hp
    simp only [List.length_cons]
    omega

theorem length_readValue {cs value rest : List Char} (h : readValue cs = some (value, rest)) :
    rest.length < cs.length := by
  unfold readValue at h
  split at h
  · rename_i tail hc
    split at h
    · rename_i c quoted hq
      split at h
      · have h₁ := length_readQuoted h
        have h₂ := length_trimStart_le cs
        have h₃ := length_trimStart_le tail
        rw [hc] at h₂
        rw [hq] at h₃
        simp only [List.length_cons] at h₂ h₃
        omega
      · cases h
    · cases h
  · cases h

theorem length_readAttribute {cs rest : List Char} {item : String × String}
    (h : readAttribute cs = some (item, rest)) : rest.length < cs.length := by
  unfold readAttribute at h
  split at h
  · cases h
  · obtain ⟨p, hp, he⟩ := Option.map_eq_some_iff.1 h
    obtain ⟨_, rfl⟩ := Prod.mk.inj he
    have h₁ := length_readValue hp
    have h₂ := congrArg List.length (List.takeWhile_append_dropWhile (p := isWord) (l := cs))
    rw [List.length_append] at h₂
    omega

/-- The items after the first one: each may have a comma before it. -/
def readMore (cs : List Char) : Option (List (String × String)) :=
  let skipped := trimStart cs
  if skipped.isEmpty then some []
  else
    let item := if skipped.head? = some ',' then trimStart skipped.tail else skipped
    match h : readAttribute item with
    | none => none
    | some (a, rest) =>
      have : rest.length < cs.length := by
        have h₁ := length_readAttribute h
        have h₂ := length_trimStart_le cs
        have h₃ := length_trimStart_le skipped.tail
        have h₄ : skipped.tail.length ≤ skipped.length := by simp
        have h₅ : item.length ≤ skipped.length := by
          simp only [item]
          split <;> omega
        simp only [skipped] at *
        omega
      (readMore rest).map (a :: ·)
termination_by cs.length

/-- The items of a text that is an attribute list. -/
def readList (cs : List Char) : Option (List (String × String)) :=
  let skipped := trimStart cs
  if skipped.isEmpty then some []
  else
    match readAttribute skipped with
    | none => none
    | some (a, rest) => (readMore rest).map (a :: ·)

/-- The attributes of a text; a text that is no attribute list has none. -/
def parse (cs : List Char) : Attributes :=
  match readList cs with
  | some items => Fields.ofList items
  | none => []

end Attributes

end Stencil.Markup
