import Stencil.Markup.Attributes
import Stencil.Markup.Error
import Stencil.Markup.Inline

/-!
# The next construct of a text

A construct is an inline expression or a tag with all that belongs to it. `Construct.next` finds
the first one of a text and cuts the text around it into five pieces, of which nothing is lost
(`Construct.next_eq`): the text before, the opening, the body, the closing and the text after.

The closing tag of a container is found by counting: an opening tag of the same kind that begins
before the next closing tag has to be closed first (`findCloser`).
-/

namespace Stencil.Markup

open Stencil.Text

/-! ## Closing tags -/

theorem length_splitAtWord_closer {t : Tag} {cs before after : List Char}
    (h : splitAtWord t.closer cs = some (before, after)) : after.length < cs.length := by
  rw [splitAtWord_eq h]
  simp [Tag.closer]
  omega

theorem length_splitOpening_nested {t : Tag} {cs before after lead rest inner tail : List Char}
    (h : splitAtWord t.closer cs = some (before, after)) (hf : t.find? before = some (lead, rest))
    (hs : splitOpening false (rest ++ t.closer ++ after) = some (inner, tail)) :
    tail.length < cs.length := by
  have h₁ := congrArg List.length (splitAtWord_eq h)
  have h₂ := congrArg List.length (Tag.find?_eq hf)
  have h₃ := congrArg List.length (splitOpening_eq hs)
  simp only [List.length_append, List.length_cons] at h₁ h₂ h₃
  omega

/-- The number of tags to be closed after one more opening tag with the text `inner`. -/
def pendingAfter (inner : List Char) (pending : Nat) : Nat :=
  if isSelfClosing inner then pending else pending + 1

/-- The text before the closing tag that matches, and the text after it. `pending` counts the tags
of the same kind that have been opened inside and not closed yet; `owner` is the place of the tag
to be closed and `here` the place of the text. -/
def findCloser (t : Tag) (owner : Location) (pending : Nat) (here : Location) (cs : List Char) :
    Except MarkupError (List Char × List Char) :=
  match h : splitAtWord t.closer cs with
  | none => .error (.malformedTag t .unclosed owner)
  | some (before, after) =>
    match hf : t.find? before with
    | some (lead, rest) =>
      match hs : splitOpening false (rest ++ t.closer ++ after) with
      | none => .error (.malformedTag t .openEnded (here.after lead))
      | some (inner, tail) =>
        have := length_splitOpening_nested h hf hs
        (findCloser t owner (pendingAfter inner pending) (here.after (lead ++ t.openTag inner))
          tail).map fun p => (lead ++ t.openTag inner ++ p.1, p.2)
    | none =>
      match pending with
      | 0 => .ok (before, after)
      | pending + 1 =>
        have := length_splitAtWord_closer h
        (findCloser t owner pending (here.after (before ++ t.closer)) after).map fun p =>
          (before ++ t.closer ++ p.1, p.2)
termination_by cs.length

/-! ## Constructs -/

/-- The kinds of constructs. -/
inductive Kind where
  | inline
  | tag (t : Tag)
deriving Repr, DecidableEq

namespace Kind

/-- The name of a kind of construct. -/
def name : Kind → String
  | inline => "$\x7b\x7d"
  | tag t => t.name

/-- Whether constructs of this kind own a body. -/
def isContainer : Kind → Bool
  | inline => false
  | tag t => t.isContainer

end Kind

/-- A construct cut out of a text, with the text before and after it. -/
structure Construct where
  kind : Kind
  attributes : Attributes
  before : List Char
  opening : List Char
  /-- The expression of an inline expression, or what a container encloses. -/
  body : List Char
  closing : List Char
  after : List Char

namespace Construct

/-- The construct itself, from its first character to its last. -/
def extent (k : Construct) : List Char := k.opening ++ k.body ++ k.closing

/-- The place where the construct begins, in a text that begins at `here`. -/
def location (k : Construct) (here : Location) : Location := here.after k.before

/-- The place where the body begins. -/
def bodyLocation (k : Construct) (here : Location) : Location :=
  (k.location here).after k.opening

/-- The place of the text after the construct. -/
def afterLocation (k : Construct) (here : Location) : Location :=
  (k.location here).after k.extent

/-- What begins a construct: an inline expression, or the name of an opening tag. -/
inductive Head where
  | inline (i : Inline)
  | tag (t : Tag) (rest : List Char)

/-- The opening tag that begins here. -/
def tagHead (cs : List Char) : Option (Tag × List Char) :=
  Tag.all.findSome? fun t => (t.strip cs).map (t, ·)

/-- The construct head that begins here. -/
def head? (cs : List Char) : Option Head :=
  match tagHead cs with
  | some (t, rest) => some (.tag t rest)
  | none => (Inline.read cs).map .inline

/-- The text before the first construct head, and that head. -/
def findHead : List Char → Option (List Char × Head)
  | [] => none
  | c :: cs =>
    match head? (c :: cs) with
    | some head => some ([], head)
    | none => (findHead cs).map fun p => (c :: p.1, p.2)

/-- The construct of the tag `t` whose name stands after `before` and is followed by `rest`. -/
def ofTag (here : Location) (before : List Char) (t : Tag) (rest : List Char) :
    Except MarkupError Construct :=
  let place := here.after before
  match splitOpening false rest with
  | none => .error (.malformedTag t .openEnded place)
  | some (inner, tail) =>
    let attributes := Attributes.parse (attributeText inner)
    if !t.isContainer || isSelfClosing inner then
      .ok ⟨.tag t, attributes, before, t.openTag inner, [], [], tail⟩
    else
      (findCloser t place 0 (place.after (t.openTag inner)) tail).map fun p =>
        ⟨.tag t, attributes, before, t.openTag inner, p.1, t.closer, p.2⟩

/-- The first construct of a text that begins at `here`. -/
def next (here : Location) (cs : List Char) : Except MarkupError (Option Construct) :=
  match findHead cs with
  | none => .ok none
  | some (before, .inline i) =>
    .ok (some ⟨.inline, [], before, i.opening, i.expression, i.closing, i.after⟩)
  | some (before, .tag t rest) => (ofTag here before t rest).map some

end Construct

/-! ## Nothing is lost -/

theorem findCloser_eq {t : Tag} {owner here : Location} {pending : Nat}
    {cs body after : List Char} (h : findCloser t owner pending here cs = .ok (body, after)) :
    cs = body ++ t.closer ++ after := by
  fun_induction findCloser t owner pending here cs generalizing body with
  | case1 => cases h
  | case2 => cases h
  | case3 pending here cs before tail' hsplit lead rest hfind inner tail hopen _ ih =>
    obtain ⟨p, hp, he⟩ := map_eq_ok_iff.1 h
    obtain ⟨rfl, rfl⟩ := Prod.mk.inj he
    have h₁ := splitAtWord_eq hsplit
    have h₂ := Tag.find?_eq hfind
    have h₃ := splitOpening_eq hopen
    have h₄ := ih hp
    calc cs = lead ++ t.opener ++ (rest ++ t.closer ++ tail') := by rw [h₁, h₂]; simp
      _ = lead ++ t.openTag inner ++ p.1 ++ t.closer ++ p.2 := by
        rw [h₃]
        conv => lhs; rw [h₄]
        simp [Tag.openTag]
  | case4 here cs before after' hsplit _ =>
    cases h
    exact splitAtWord_eq hsplit
  | case5 here cs before after' hsplit _ pending _ ih =>
    obtain ⟨p, hp, he⟩ := map_eq_ok_iff.1 h
    obtain ⟨rfl, rfl⟩ := Prod.mk.inj he
    have h₁ := splitAtWord_eq hsplit
    have h₄ := ih hp
    rw [h₁]
    conv => lhs; rw [h₄]
    simp

namespace Construct

/-- The text that a construct head was found in. -/
def Head.whole : Head → List Char
  | .inline i => i.whole
  | .tag t rest => t.opener ++ rest

/-- An inline expression has an opening; that of a tag is never empty. -/
def Head.Opens : Head → Prop
  | .inline i => i.opening ≠ []
  | .tag _ _ => True

theorem head?_eq {cs : List Char} {head : Head} (h : head? cs = some head) :
    cs = head.whole ∧ head.Opens := by
  unfold head? at h
  split at h
  · rename_i t rest ht
    cases h
    obtain ⟨u, _, hu⟩ := List.exists_of_findSome?_eq_some ht
    obtain ⟨r, hr, he⟩ := Option.map_eq_some_iff.1 hu
    cases he
    exact ⟨Tag.strip_eq hr, trivial⟩
  · obtain ⟨i, hi, he⟩ := Option.map_eq_some_iff.1 h
    cases he
    exact ⟨Inline.read_eq hi, Inline.opening_ne_nil hi⟩

theorem findHead_eq {cs before : List Char} {head : Head}
    (h : findHead cs = some (before, head)) : cs = before ++ head.whole ∧ head.Opens := by
  induction cs generalizing before with
  | nil => cases h
  | cons c cs ih =>
    unfold findHead at h
    split at h
    · rename_i j hj
      obtain ⟨rfl, rfl⟩ := Prod.mk.inj (Option.some.inj h)
      exact head?_eq hj
    · obtain ⟨p, hp, he⟩ := Option.map_eq_some_iff.1 h
      obtain ⟨rfl, rfl⟩ := Prod.mk.inj he
      have := ih hp
      exact ⟨by simp only [this.1, List.cons_append], this.2⟩

theorem ofTag_eq {here : Location} {before rest : List Char} {t : Tag} {k : Construct}
    (h : ofTag here before t rest = .ok k) :
    before ++ t.opener ++ rest = k.before ++ k.extent ++ k.after ∧ k.opening ≠ [] := by
  unfold ofTag at h
  split at h
  · cases h
  · rename_i inner tail hs
    have hs := splitOpening_eq hs
    split at h
    · cases h
      simp [extent, hs, Tag.openTag, Tag.opener]
    · obtain ⟨p, hp, rfl⟩ := map_eq_ok_iff.1 h
      have hc := findCloser_eq hp
      refine ⟨?_, by simp [Tag.openTag, Tag.opener]⟩
      simp only [extent, hs]
      conv => lhs; rw [hc]
      simp [Tag.openTag]

/-- The five pieces make up the text, and the opening is not empty. -/
theorem next_eq {here : Location} {cs : List Char} {k : Construct}
    (h : next here cs = .ok (some k)) :
    cs = k.before ++ k.extent ++ k.after ∧ k.opening ≠ [] := by
  unfold next at h
  split at h
  · cases h
  · rename_i before i hf
    cases h
    obtain ⟨hf, ho⟩ := findHead_eq hf
    exact ⟨by simp [hf, Head.whole, Inline.whole, Inline.extent, extent], ho⟩
  · rename_i before t rest hf
    have hf := (findHead_eq hf).1
    obtain ⟨k', hk, he⟩ := map_eq_ok_iff.1 h
    cases he
    have := ofTag_eq hk
    rw [hf]
    simpa [Head.whole] using this

end Construct

end Stencil.Markup
