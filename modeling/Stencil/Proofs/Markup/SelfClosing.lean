import Stencil.Proofs.Markup.Range
import Stencil.Proofs.Markup.RoundTrip

/-!
# Tags that close themselves

Whatever attributes are written in a tag that closes itself, with any characters in their values and
any separators between them, survive it (`nextExtent_printJoined`): its construct ends right after
the `/>`, whatever stands in the values and behind the tag, and it has the attributes that were
written, the last value of each name.
-/

namespace Stencil.Markup

open Stencil.Text

section

variable {items : List (List Char × (String × String))}

/-- The text between the name of a tag that closes itself and its `>`. -/
def joinedInner (items : List (List Char × (String × String))) : List Char :=
  ' ' :: (printJoined items ++ ['/'])

theorem isInner_joinedInner (hnames : ∀ i ∈ items, IsName i.2.1)
    (hseparators : ∀ i ∈ items.tail, IsSeparator i.1) : IsInner (joinedInner items) where
  endsName c hc := by
    cases hc
    decide
  splits rest := by
    have hspace : joinedInner items ++ '>' :: rest =
        [' '] ++ (printJoined items ++ (['/'] ++ '>' :: rest)) := by simp [joinedInner]
    rw [hspace, splitOpening_append (by decide) (by decide),
      splitOpening_printJoined hnames hseparators, splitOpening_append (by decide) (by decide),
      splitOpening_close]
    simp [prepend, joinedInner]

theorem isSelfClosing_joinedInner : isSelfClosing (joinedInner items) = true :=
  isSelfClosing_concat (' ' :: printJoined items)

theorem parse_joinedInner (hnames : ∀ i ∈ items, IsName i.2.1)
    (hseparators : ∀ i ∈ items.tail, IsSeparator i.1) :
    Attributes.parse (attributeText (joinedInner items)) = Fields.ofList (items.map (·.2)) := by
  have htext : attributeText (joinedInner items) = ' ' :: printJoined items :=
    attributeText_concat (' ' :: printJoined items)
  rw [htext, Attributes.parse, Attributes.readList_printJoined hnames hseparators]

/-- The tag is the first construct of a text that begins with it. -/
theorem next_joinedInner (hnames : ∀ i ∈ items, IsName i.2.1)
    (hseparators : ∀ i ∈ items.tail, IsSeparator i.1) (t : Tag) (here : Location)
    (after : List Char) :
    Construct.next here (t.openTag (joinedInner items) ++ after) =
      .ok (some ⟨.tag t, Fields.ofList (items.map (·.2)), [], t.openTag (joinedInner items), [], [],
        after⟩) := by
  have hinner := isInner_joinedInner hnames hseparators
  have hhead := Construct.findHead_openTag hinner t Construct.plain_nil after
  rw [← parse_joinedInner hnames hseparators]
  exact Construct.found_iff.2
    (.single hhead (hinner.splits after) (.inr isSelfClosing_joinedInner))

end

/-- Any attribute values survive a tag. The pairs are written with a backslash before each quote and
backslash, between quotes, and separated by a comma and a space or by white space, in a tag that
closes itself. From its `<` on, the first construct is this tag up to its `/>`, whatever stands
before it and in the range behind it. It has the pairs as its attributes, and of two values of one
name the last one. -/
theorem nextExtent_printJoined (t : Tag) (items : List (List Char × (String × String)))
    (hnames : ∀ i ∈ items, IsName i.2.1) (hseparators : ∀ i ∈ items.tail, IsSeparator i.1)
    (before after rest : List Char) :
    let tag := t.opener ++ ' ' :: (printJoined items ++ ['/', '>'])
    let start := utf8Length before
    let stop := start + utf8Length tag
    let attributes := Fields.ofList (items.map (·.2))
    nextExtent (before ++ (tag ++ after) ++ rest) start (start + utf8Length (tag ++ after)) =
        .ok (some ⟨.tag t, attributes, start, [], stop, stop, stop⟩) ∧
      attributes.Sorted ∧
      ∀ name, Fields.get? name attributes = Fields.get? name (items.map (·.2)).reverse := by
  intro tag start stop attributes
  refine ⟨?_, Fields.sorted_ofList _, Fields.get?_ofList _⟩
  have htag : tag = t.openTag (joinedInner items) := by
    simp [tag, Tag.openTag, joinedInner]
  have hstands : Stands (before ++ (tag ++ after) ++ rest) start (tag ++ after)
      (start + utf8Length (tag ++ after)) := ⟨before, rest, rfl, rfl, rfl⟩
  have hnext := nextExtent_eq hstands.standsAt
  rw [hstands.offset_ofOffset] at hnext
  rw [hnext, htag, next_joinedInner hnames hseparators]
  simp [Except.map, Construct.placed, stop, htag, attributes, utf8Length]

/-- Three attributes with all that could end a value, a tag or a list too early: quotes, backslashes
before them and at the end, the end of a tag, other constructs, and a line break. The first and the
last one have one name, and the separators differ. -/
def trickyItems : List (List Char × (String × String)) :=
  [([], ("in", "it's \\' '/> </for> ${x}")), ([',', ' '], ("é_1", "\\é\\")),
    (['\n', '\t'], ("in", "<for\n\\"))]

/-- The tag of a loop with these attributes. -/
def trickyTag : List Char :=
  "<for in:'it\\'s \\\\\\' \\'/> </for> ${x}', é_1:'\\\\é\\\\'\n\tin:'<for\n\\\\'/>".toList

/-- The loop ends right after its `/>`, between two closing tags. The range ends before a quote. -/
theorem nextExtent_trickyItems :
    (∀ i ∈ trickyItems, IsName i.2.1) ∧ (∀ i ∈ trickyItems.tail, IsSeparator i.1) ∧
      Tag.loop.opener ++ ' ' :: (printJoined trickyItems ++ ['/', '>']) = trickyTag ∧
      nextExtent ("é</for>".toList ++ (trickyTag ++ "</for>".toList) ++ ['\x27']) 8 82 =
        .ok (some ⟨.tag .loop, [("in", "<for\n\\"), ("é_1", "\\é\\")], 8, [], 76, 76, 76⟩) := by
  have hnames : ∀ i ∈ trickyItems, IsName i.2.1 := by decide +kernel
  have hseparators : ∀ i ∈ trickyItems.tail, IsSeparator i.1 := by decide +kernel
  have htag : Tag.loop.opener ++ ' ' :: (printJoined trickyItems ++ ['/', '>']) = trickyTag := by
    decide +kernel
  have hattributes : Fields.ofList (trickyItems.map (·.2)) =
      [("in", "<for\n\\"), ("é_1", "\\é\\")] := by decide +kernel
  have hbefore : utf8Length "é</for>".toList = 8 := by decide +kernel
  have hlength : utf8Length trickyTag = 68 := by decide +kernel
  have hrange : utf8Length (trickyTag ++ "</for>".toList) = 74 := by decide +kernel
  obtain ⟨h, -⟩ := nextExtent_printJoined .loop trickyItems hnames hseparators "é</for>".toList
    "</for>".toList ['\x27']
  rw [htag, hattributes, hbefore, hlength, hrange] at h
  exact ⟨hnames, hseparators, htag, h⟩

end Stencil.Markup
