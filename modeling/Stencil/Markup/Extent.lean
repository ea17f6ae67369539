import Stencil.Markup.Construct

/-!
# Constructs in place

A range of a source is searched for its first construct without cutting the range out first: all
readers get the whole source and stop at the end of the range, and what they return are byte offsets
into the source (`Extent`).

That a range is read as the text in it would be read alone is shown in
`Stencil.Proofs.Markup.Range`.
-/

namespace Stencil.Markup

open Stencil.Text

/-- A construct as the byte offsets of its parts in a source. -/
structure Extent where
  kind : Kind
  attributes : Attributes
  start : Nat
  /-- The expression of an inline expression, or what a container encloses. -/
  content : List Char
  bodyStart : Nat
  bodyStop : Nat
  stop : Nat
deriving DecidableEq

/-! ## Opening and closing tags -/

/-- The byte offset of the `>` that ends an opening tag. The source holds `cs` from the byte offset
`pos` on, and the search ends at the byte offset `limit`. Inside quotes a backslash hides the
character after it, even one that stands at the limit. -/
def openingEnd (limit : Nat) : Bool → Nat → List Char → Option Nat
  | _, _, [] => none
  | true, pos, '\\' :: c :: cs =>
    if limit ≤ pos then none else openingEnd limit true (pos + 1 + c.utf8Size) cs
  | quoted, pos, c :: cs =>
    if limit ≤ pos then none
    else if c = '\x27' then openingEnd limit (!quoted) (pos + 1) cs
    else if c = '>' && !quoted then some pos
    else openingEnd limit quoted (pos + c.utf8Size) cs

/-- The text before the first opening tag of one of these kinds, and its kind. -/
def findTag (tags : List Tag) : List Char → Option (List Char × Tag)
  | [] => none
  | c :: cs =>
    match tags.find? fun t => (t.strip (c :: cs)).isSome with
    | some t => some ([], t)
    | none => (findTag tags cs).map fun p => (c :: p.1, p.2)

theorem openingEnd_bounds {limit pos stop : Nat} {quoted : Bool} {cs : List Char}
    (h : openingEnd limit quoted pos cs = some stop) : pos ≤ stop ∧ stop < limit := by
  fun_induction openingEnd limit quoted pos cs with
  | case1 => cases h
  | case2 => cases h
  | case3 _ _ _ _ ih =>
    have := ih h
    omega
  | case4 => cases h
  | case5 _ _ _ _ _ ih =>
    have := ih h
    omega
  | case6 =>
    cases h
    omega
  | case7 =>
    rename_i ih
    have := ih h
    omega

/-- A word that is found in a window ends in it. -/
theorem length_of_splitAtWord_window {word source before after : List Char} {start stop : Nat}
    (h : splitAtWord word (window start stop source) = some (before, after)) :
    utf8Length before + utf8Length word ≤ stop - start := by
  have hlength := utf8Length_window_le start stop source
  rw [splitAtWord_eq h, utf8Length_append, utf8Length_append] at hlength
  omega

theorem Tag.utf8Length_closer_pos (t : Tag) : 0 < utf8Length t.closer := by
  have := Char.utf8Size_pos '<'
  rw [Tag.closer, utf8Length_cons]
  omega

section

variable (source : List Char)

/-- The end of the opening tag of kind `t` that begins at `start`. -/
def openingStop (t : Tag) (limit start : Nat) : Except MarkupError Nat :=
  match openingEnd limit false (start + utf8Length t.opener)
      (dropBytes (start + utf8Length t.opener) source) with
  | none => .error (.malformedTag t .openEnded (Location.ofOffset source start))
  | some stop => .ok stop

/-- The text between the name and the `>` of the opening tag that begins at `start`. -/
def openingInner (t : Tag) (start stop : Nat) : List Char :=
  window (start + utf8Length t.opener) stop source

theorem openingStop_bounds {t : Tag} {limit start stop : Nat}
    (h : openingStop source t limit start = .ok stop) : start < stop ∧ stop < limit := by
  unfold openingStop at h
  split at h
  · cases h
  · rename_i hs
    cases h
    have hbounds := openingEnd_bounds hs
    have := Char.utf8Size_pos '<'
    rw [Tag.opener, utf8Length_cons] at hbounds
    omega

/-- Where the closing tag that matches begins and ends. The search goes on at `pos`; `pending`
counts the tags of the same kind that have been opened inside and not closed yet, and `owner` is
where the tag to be closed begins. -/
def closingExtent (t : Tag) (owner limit pending pos : Nat) : Except MarkupError (Nat × Nat) :=
  match h : splitAtWord t.closer (window pos limit source) with
  | none => .error (.malformedTag t .unclosed (Location.ofOffset source owner))
  | some (before, _) =>
    have := length_of_splitAtWord_window h
    have := t.utf8Length_closer_pos
    let close := pos + utf8Length before
    match findTag [t] (window pos close source) with
    | some (lead, _) =>
      let start := pos + utf8Length lead
      match hs : openingStop source t limit start with
      | .error e => .error e
      | .ok stop =>
        have := openingStop_bounds source hs
        let inner := openingInner source t start stop
        closingExtent t owner limit (pendingAfter inner pending) (stop + 1)
    | none =>
      match pending with
      | 0 => .ok (close, close + utf8Length t.closer)
      | pending + 1 => closingExtent t owner limit pending (close + utf8Length t.closer)
termination_by limit - pos

/-! ## Constructs -/

/-- The construct of the tag `t` that begins at `start`. -/
def tagExtent (t : Tag) (limit start : Nat) : Except MarkupError Extent :=
  match openingStop source t limit start with
  | .error e => .error e
  | .ok stop =>
    let inner := openingInner source t start stop
    let attributes := Attributes.parse (attributeText inner)
    if !t.isContainer || isSelfClosing inner then
      .ok ⟨.tag t, attributes, start, [], stop + 1, stop + 1, stop + 1⟩
    else
      (closingExtent source t start limit 0 (stop + 1)).map fun p =>
        ⟨.tag t, attributes, start, window (stop + 1) p.1 source, stop + 1, p.1, p.2⟩

/-- An inline expression that begins at `start`. -/
def inlineExtent (i : Inline) (start : Nat) : Extent :=
  let bodyStart := start + utf8Length i.opening
  let bodyStop := bodyStart + utf8Length i.expression
  ⟨.inline, [], start, i.expression, bodyStart, bodyStop, bodyStop + utf8Length i.closing⟩

/-- The first construct between two byte offsets. -/
def nextExtent (start stop : Nat) : Except MarkupError (Option Extent) :=
  let text := window start stop source
  match findTag Tag.all text, Inline.find? text with
  | none, none => .ok none
  | none, some (before, i) => .ok (some (inlineExtent i (start + utf8Length before)))
  | some (lead, t), none => (tagExtent source t stop (start + utf8Length lead)).map some
  | some (lead, t), some (before, i) =>
    if utf8Length lead < utf8Length before then
      (tagExtent source t stop (start + utf8Length lead)).map some
    else .ok (some (inlineExtent i (start + utf8Length before)))

/-- A construct cut out of the range that it was found in. -/
def Extent.cut (start stop : Nat) (s : Extent) : Construct where
  kind := s.kind
  attributes := s.attributes
  before := window start s.start source
  opening := window s.start s.bodyStart source
  body := s.content
  closing := window s.bodyStop s.stop source
  after := window s.stop stop source

/-- The first construct of `source` between two byte offsets. What stands outside of them does not
count. -/
def Construct.nextIn (start stop : Nat) : Except MarkupError (Option Construct) :=
  (nextExtent source start stop).map (Option.map (Extent.cut source start stop))

/-! ## Constructs do not leave their range -/

theorem closingExtent_bounds {t : Tag} {owner limit pending pos : Nat} {p : Nat × Nat}
    (h : closingExtent source t owner limit pending pos = .ok p) :
    pos ≤ p.1 ∧ p.1 ≤ p.2 ∧ p.2 ≤ limit := by
  fun_induction closingExtent source t owner limit pending pos with
  | case1 => cases h
  | case2 => cases h
  | case3 pending pos before _ hs _ _ close lead _ _ start stop hstop _ _ ih =>
    have hbounds := ih h
    have := openingStop_bounds source hstop
    omega
  | case4 pos before _ hs _ _ close hf =>
    cases h
    have := length_of_splitAtWord_window hs
    omega
  | case5 pos before _ hs _ _ close hf pending ih =>
    have hbounds := ih h
    omega

theorem tagExtent_bounds {t : Tag} {limit start : Nat} {s : Extent}
    (h : tagExtent source t limit start = .ok s) :
    s.start = start ∧ start < s.bodyStart ∧ s.bodyStart ≤ s.bodyStop ∧ s.bodyStop ≤ s.stop ∧
      s.stop ≤ limit ∧ utf8Length s.content ≤ s.bodyStop - s.bodyStart := by
  unfold tagExtent at h
  split at h
  · cases h
  · rename_i stop hs
    obtain ⟨hstart, hlimit⟩ := openingStop_bounds source hs
    have hstart : start < stop + 1 := Nat.lt_succ_of_lt hstart
    dsimp only at h
    split at h
    · cases h
      exact ⟨rfl, hstart, Nat.le_refl _, Nat.le_refl _, hlimit, Nat.zero_le _⟩
    · obtain ⟨p, hp, rfl⟩ := map_eq_ok_iff.1 h
      obtain ⟨h₁, h₂, h₃⟩ := closingExtent_bounds source hp
      exact ⟨rfl, hstart, h₁, h₂, h₃, utf8Length_window_le _ _ _⟩

theorem inlineExtent_bounds {before : List Char} {i : Inline} {start stop : Nat}
    (h : Inline.find? (window start stop source) = some (before, i)) :
    let s := inlineExtent i (start + utf8Length before)
    start < s.bodyStart ∧ s.bodyStart ≤ s.bodyStop ∧ s.bodyStop ≤ s.stop ∧ s.stop ≤ stop ∧
      utf8Length s.content ≤ s.bodyStop - s.bodyStart := by
  have hlength := utf8Length_window_le start stop source
  rw [Inline.find?_eq h, Inline.whole, Inline.extent] at hlength
  simp only [utf8Length_append] at hlength
  have hopening := utf8Length_pos (Inline.opening_ne_nil_of_find? h)
  simp only [inlineExtent]
  omega

/-- The parts of a construct follow each other within its range, and the opening is not empty. -/
theorem nextExtent_bounds {start stop : Nat} {s : Extent}
    (h : nextExtent source start stop = .ok (some s)) :
    start < s.bodyStart ∧ s.bodyStart ≤ s.bodyStop ∧ s.bodyStop ≤ s.stop ∧ s.stop ≤ stop ∧
      utf8Length s.content ≤ s.bodyStop - s.bodyStart := by
  have tagged {t : Tag} {lead : List Char}
      (h : (tagExtent source t stop (start + utf8Length lead)).map some = .ok (some s)) :
      start < s.bodyStart ∧ s.bodyStart ≤ s.bodyStop ∧ s.bodyStop ≤ s.stop ∧ s.stop ≤ stop ∧
        utf8Length s.content ≤ s.bodyStop - s.bodyStart := by
    obtain ⟨s', hs, he⟩ := map_eq_ok_iff.1 h
    cases he
    obtain ⟨-, h₁, h₂⟩ := tagExtent_bounds source hs
    exact ⟨by omega, h₂⟩
  unfold nextExtent at h
  dsimp only at h
  split at h
  · cases h
  · rename_i hi
    cases h
    exact inlineExtent_bounds source hi
  · exact tagged h
  · rename_i hi
    split at h
    · exact tagged h
    · cases h
      exact inlineExtent_bounds source hi

end

end Stencil.Markup
