import Stencil.Text.Search
import Stencil.Text.WhiteSpace

/-!
# Tags

Four kinds of tags stand in a template: loops, conditions, static parts and inclusions. The first
three own a body that a closing tag ends; any tag may also close itself.

* `Tag.strip` recognises where an opening tag of a kind begins: its name has to be followed by
  white space, `>` or `/`;
* `splitOpening` finds the `>` that ends an opening tag, which is the first one outside a quoted
  attribute value.
-/

namespace Stencil.Markup

open Stencil.Text

/-- The kinds of tags. -/
inductive Tag where
  | loop
  | cond
  | static
  | inclusion
deriving Repr, DecidableEq

namespace Tag

/-- The name of a tag as it is written. -/
def word : Tag → List Char
  | loop => ['f', 'o', 'r']
  | cond => ['i', 'f']
  | static => ['s', 't', 'a', 't', 'i', 'c']
  | inclusion => ['i', 'n', 'c', 'l', 'u', 'd', 'e']

/-- The name of a tag. -/
def name (t : Tag) : String := String.ofList t.word

/-- All tags. -/
def all : List Tag := [loop, cond, static, inclusion]

/-- Whether a tag owns a body. -/
def isContainer : Tag → Bool
  | inclusion => false
  | _ => true

/-- The opening tag up to its name. -/
def opener (t : Tag) : List Char := '<' :: t.word

/-- The opening tag with the text `inner` between its name and its `>`. -/
def openTag (t : Tag) (inner : List Char) : List Char := t.opener ++ inner ++ ['>']

/-- The closing tag. -/
def closer (t : Tag) : List Char := '<' :: '/' :: (t.word ++ ['>'])

/-- A character that may follow the name in an opening tag. -/
def endsName (c : Char) : Bool := isWhiteSpace c || c = '>' || c = '/'

/-- What follows the name, if an opening tag of this kind begins here. -/
def strip (t : Tag) (cs : List Char) : Option (List Char) :=
  match stripWord t.opener cs with
  | some (c :: rest) => if endsName c then some (c :: rest) else none
  | _ => none

/-- The text before the first opening tag of this kind, and what follows the name in it. -/
def find? (t : Tag) : List Char → Option (List Char × List Char)
  | [] => none
  | c :: cs =>
    match t.strip (c :: cs) with
    | some rest => some ([], rest)
    | none => (t.find? cs).map fun p => (c :: p.1, p.2)

/-- An opening tag begins with its name and a character that may follow it. -/
theorem strip_eq_some_iff {t : Tag} {cs rest : List Char} :
    t.strip cs = some rest ↔
      ∃ c r, endsName c = true ∧ rest = c :: r ∧ cs = t.opener ++ c :: r := by
  constructor
  · intro h
    unfold strip at h
    split at h
    · rename_i c r hc
      split at h
      · rename_i he
        cases h
        exact ⟨c, r, he, rfl, stripWord_eq hc⟩
      · cases h
    · cases h
  · rintro ⟨c, r, he, rfl, rfl⟩
    rw [strip, stripWord_append]
    exact if_pos he

theorem strip_eq {t : Tag} {cs rest : List Char} (h : t.strip cs = some rest) :
    cs = t.opener ++ rest := by
  obtain ⟨c, r, -, rfl, hcs⟩ := strip_eq_some_iff.1 h
  exact hcs

theorem find?_eq {t : Tag} {cs before rest : List Char} (h : t.find? cs = some (before, rest)) :
    cs = before ++ t.opener ++ rest := by
  induction cs generalizing before with
  | nil => cases h
  | cons c cs ih =>
    unfold find? at h
    split at h
    · rename_i r hr
      obtain ⟨rfl, rfl⟩ := Prod.mk.inj (Option.some.inj h)
      exact strip_eq hr
    · obtain ⟨p, hp, he⟩ := Option.map_eq_some_iff.1 h
      obtain ⟨rfl, rfl⟩ := Prod.mk.inj he
      have := ih hp
      simp only [this, List.cons_append]

end Tag

/-! ## The end of an opening tag -/

/-- Splits what follows the name of an opening tag at the first `>` outside quotes. Inside quotes a
backslash hides the character after it. -/
def splitOpening : Bool → List Char → Option (List Char × List Char)
  | _, [] => none
  | true, ['\\'] => none
  | true, '\\' :: c :: cs => (splitOpening true cs).map fun p => ('\\' :: c :: p.1, p.2)
  | quoted, c :: cs =>
    if c = '\x27' then (splitOpening (!quoted) cs).map fun p => (c :: p.1, p.2)
    else if c = '>' && !quoted then some ([], cs)
    else (splitOpening quoted cs).map fun p => (c :: p.1, p.2)

/-- Whether the text between the name and the `>` of an opening tag ends in `/`. -/
def isSelfClosing (inner : List Char) : Bool := (trimEnd inner).getLast? = some '/'

/-- The attribute list of an opening tag: the text between its name and its `>`, without the `/` of
a tag that closes itself. -/
def attributeText (inner : List Char) : List Char :=
  if isSelfClosing inner then (trimEnd inner).dropLast else inner

theorem splitOpening_eq {quoted : Bool} {cs inner after : List Char}
    (h : splitOpening quoted cs = some (inner, after)) : cs = inner ++ '>' :: after := by
  fun_induction splitOpening quoted cs generalizing inner with
  | case1 => cases h
  | case2 => cases h
  | case3 c cs ih =>
    obtain ⟨p, hp, he⟩ := Option.map_eq_some_iff.1 h
    obtain ⟨rfl, rfl⟩ := Prod.mk.inj he
    rw [ih hp]
    rfl
  | case4 quoted cs _ _ ih =>
    obtain ⟨p, hp, he⟩ := Option.map_eq_some_iff.1 h
    obtain ⟨rfl, rfl⟩ := Prod.mk.inj he
    rw [ih hp]
    rfl
  | case5 quoted c cs _ _ _ hc =>
    obtain ⟨rfl, rfl⟩ := Prod.mk.inj (Option.some.inj h)
    simp_all
  | case6 quoted c cs _ _ _ _ ih =>
    obtain ⟨p, hp, he⟩ := Option.map_eq_some_iff.1 h
    obtain ⟨rfl, rfl⟩ := Prod.mk.inj he
    rw [ih hp]
    rfl

end Stencil.Markup
