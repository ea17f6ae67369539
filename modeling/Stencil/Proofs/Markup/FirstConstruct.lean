import Mathlib.Logic.Relation
import Stencil.Proofs.Markup.Events
import Stencil.Proofs.Markup.Scanner

/-!
# The first construct of a range

The search of a range comes to one of three results (`nextExtent_cases`): nothing, the first inline
expression of the range, or what is read at its first tag. From this follows what is known of each
search (`nextBlock?_spec`): what it finds lies in the range, character by character, and nothing
begins before it; if it fails, a tag begins at the place of the error.

Reading a range goes on in ranges that begin later and end no later (`GoesOn`). Each of them can be
searched, and there is no infinite sequence of them.
-/

namespace Stencil.Markup

open Stencil.Text

/-! ## Tags in a range -/

/-- A tag of kind `t` begins at the byte offset `first` of a source, in the range from `start` to
`stop`: its name stands there, with a character behind it that may follow it. -/
structure TagAt (source : List Char) (start stop first : Nat) (t : Tag) : Prop where
  start_le : start ≤ first
  begins : ∃ c last, Tag.endsName c = true ∧ Stands source first (t.opener ++ [c]) last ∧
    last ≤ stop

/-- No tag and no inline expression begins in the range before the byte offset `n`. -/
structure NothingBefore (source : List Char) (start stop n : Nat) : Prop where
  tag : ∀ first t, TagAt source start stop first t → n ≤ first
  inline : ∀ first inner, Inline.InlineAt source start stop first inner → n ≤ first

/-- No tag and no inline expression begins in the range. -/
structure Plain (source : List Char) (start stop : Nat) : Prop where
  tag : ∀ first t, ¬ TagAt source start stop first t
  inline : ∀ first inner, ¬ Inline.InlineAt source start stop first inner

section

variable {source text lead rest : List Char} {start stop first pos : Nat} {t : Tag} {i : Inline}

theorem TagAt.mono (h : TagAt source pos stop first t) (hle : start ≤ pos) :
    TagAt source start stop first t :=
  ⟨Nat.le_trans hle h.start_le, h.begins⟩

/-- The tags that begin in a range are those that begin in the text of the range. -/
theorem tagAt_iff (hs : Stands source start text stop) :
    TagAt source start stop first t ↔
      ∃ x z, text = x ++ z ∧ first = start + utf8Length x ∧ t.strip z ≠ none := by
  constructor
  · rintro ⟨hstart, c, last, hc, hstands, hstop⟩
    obtain ⟨x, z, htext, hfirst, -⟩ := hs.inside_iff.1 ⟨hstart, hstands, hstop⟩
    exact ⟨x, _, htext, hfirst, Tag.strip_ne_none_iff.2 ⟨c, hc, z, rfl⟩⟩
  · rintro ⟨x, _, htext, hfirst, hstrip⟩
    obtain ⟨c, hc, z, rfl⟩ := Tag.strip_ne_none_iff.1 hstrip
    obtain ⟨hstart, hstands, hstop⟩ := hs.inside_iff.2 ⟨x, z, htext, hfirst, rfl⟩
    exact ⟨hstart, c, _, hc, hstands, hstop⟩

theorem find?_strip_ne_none (h : t.strip text ≠ none) :
    (Tag.all.find? fun t => (t.strip text).isSome) ≠ none := by
  have hall : t ∈ Tag.all := by cases t <;> decide
  exact fun hnone => List.find?_eq_none.1 hnone t hall (Option.isSome_iff_ne_none.2 h)

theorem not_tagAt_of_findTag (hs : Stands source start text stop)
    (hf : findTag Tag.all text = none) : ¬ TagAt source start stop first t := by
  intro hat
  obtain ⟨x, z, htext, -, hstrip⟩ := (tagAt_iff hs).1 hat
  rw [findTag_eq_firstPlace] at hf
  exact find?_strip_ne_none hstrip (firstPlace_eq_none_iff.1 hf z ⟨x, htext.symm⟩)

/-- The tag that is found is the first one of the range. -/
theorem tagAt_of_findTag (hs : Stands source start text stop)
    (hf : findTag Tag.all text = some (lead, t)) :
    TagAt source start stop (start + utf8Length lead) t ∧
      ∀ first u, TagAt source start stop first u → start + utf8Length lead ≤ first := by
  rw [findTag_eq_firstPlace] at hf
  obtain ⟨y, htext, hy, hleast⟩ := firstPlace_eq_some_iff.1 hf
  have hstrip : t.strip y ≠ none := Option.isSome_iff_ne_none.1 (by simpa using List.find?_some hy)
  refine ⟨(tagAt_iff hs).2 ⟨lead, y, htext, rfl, hstrip⟩, fun first u hat => ?_⟩
  obtain ⟨x, z, htext', rfl, hstrip'⟩ := (tagAt_iff hs).1 hat
  refine Nat.add_le_add_left (Nat.not_lt.1 fun hlt => ?_) start
  have hlength := (utf8Length_lt_iff ⟨z, htext'.symm⟩ ⟨y, htext.symm⟩).1 hlt
  exact find?_strip_ne_none hstrip' (hleast x z htext'.symm hlength)

/-- The inline expression that is found is the first one of the range. -/
theorem inlineAt_of_find? (hs : Stands source start text stop)
    (hf : Inline.find? text = some (lead, i)) :
    ∃ inner, Inline.InlineAt source start stop (start + utf8Length lead) inner ∧
      (∀ first inner', Inline.InlineAt source start stop first inner' →
        start + utf8Length lead ≤ first) ∧
      inlineExtent i (start + utf8Length lead) = Inline.span (start + utf8Length lead) inner := by
  have hfound : Inline.searchIn? source start stop =
      some (inlineExtent i (start + utf8Length lead)) := by
    rw [Inline.searchIn?_eq, Inline.findIn?, hs.slice_eq, hf]
    rfl
  exact (Inline.searchIn?_eq_some_iff (hs.slice_eq.symm ▸ hs)).1 hfound

theorem not_inlineAt_of_find? (hs : Stands source start text stop)
    (hf : Inline.find? text = none) (first : Nat) (inner : List Char) :
    ¬ Inline.InlineAt source start stop first inner := by
  refine (Inline.searchIn?_eq_none_iff (hs.slice_eq.symm ▸ hs)).1 ?_ first inner
  rw [Inline.searchIn?_eq, Inline.findIn?, hs.slice_eq, hf]
  rfl

end

/-! ## What a search comes to -/

section

variable {source text rest : List Char} {start stop first : Nat} {t : Tag} {s : Extent}
  {e : MarkupError}

/-- The search of a range comes to nothing, to the first inline expression, or to what is read at
the first tag. -/
theorem nextExtent_cases (hs : Stands source start text stop) :
    (Plain source start stop ∧ nextExtent source start stop = .ok none) ∨
      (∃ first inner, Inline.InlineAt source start stop first inner ∧
        NothingBefore source start stop first ∧
        nextExtent source start stop = .ok (some (Inline.span first inner))) ∨
      ∃ first t, TagAt source start stop first t ∧ NothingBefore source start stop first ∧
        nextExtent source start stop = (tagExtent source t stop first).map some := by
  rw [nextExtent, hs.window_eq]
  cases hf : findTag Tag.all text with
  | none =>
    have htag (first : Nat) (t : Tag) : ¬ TagAt source start stop first t :=
      not_tagAt_of_findTag hs hf
    cases hi : Inline.find? text with
    | none => exact .inl ⟨⟨htag, not_inlineAt_of_find? hs hi⟩, rfl⟩
    | some p =>
      obtain ⟨inner, hat, hleast, heq⟩ := inlineAt_of_find? hs hi
      exact .inr (.inl ⟨_, inner, hat, ⟨fun first t h => absurd h (htag first t), hleast⟩,
        congrArg (Except.ok ∘ some) heq⟩)
  | some q =>
    obtain ⟨hat, hleast⟩ := tagAt_of_findTag hs hf
    cases hi : Inline.find? text with
    | none =>
      have hinline (first : Nat) (inner : List Char) := not_inlineAt_of_find? hs hi first inner
      exact .inr (.inr ⟨_, _, hat, ⟨hleast, fun first inner h => absurd h (hinline first inner)⟩,
        rfl⟩)
    | some p =>
      obtain ⟨inner, hin, hinline, heq⟩ := inlineAt_of_find? hs hi
      dsimp only
      split
      · rename_i hlt
        refine .inr (.inr ⟨_, _, hat, ⟨hleast, fun first inner h => ?_⟩, rfl⟩)
        have := hinline first inner h
        omega
      · rename_i hge
        refine .inr (.inl ⟨_, inner, hin, ⟨fun first t h => ?_, hinline⟩,
          congrArg (Except.ok ∘ some) heq⟩)
        have := hleast first t h
        omega

theorem kind_of_tagExtent (h : tagExtent source t stop first = .ok s) : s.kind = .tag t := by
  unfold tagExtent at h
  split at h
  · cases h
  · dsimp only at h
    split at h
    · cases h
      rfl
    · obtain ⟨p, -, rfl⟩ := map_eq_ok_iff.1 h
      rfl

/-- Where a tag cannot be read, the error names a tag that begins at its place. -/
theorem tagAt_of_tagExtent_eq_error (hat : TagAt source start stop first t)
    (hs : Stands source first (t.opener ++ rest) stop)
    (he : tagExtent source t stop first = .error e) :
    ∃ n fault, TagAt source start stop n t ∧
      e = .malformedTag t fault (Location.ofOffset source n) := by
  rw [tagExtent, Scanner.openingStop_stands hs] at he
  cases ho : splitOpening false rest with
  | none =>
    rw [ho] at he
    exact ⟨first, .openEnded, hat, (Except.error.inj he).symm⟩
  | some p =>
    obtain ⟨inner, tail⟩ := p
    have howner := (Scanner.isBoundary_of_stands hs).1
    rw [ho] at he
    rw [splitOpening_eq ho] at hs
    have htail : Stands source (first + utf8Length t.opener + utf8Length inner + 1) tail stop :=
      (Stands.append (x := ['>']) hs.append.2.append.2).2
    dsimp only at he
    split at he
    · cases he
    · rw [map_eq_error_iff, Scanner.closingExtent_stands htail howner, map_eq_error_iff,
        findCloser_eq_error_iff] at he
      rcases he with ⟨-, rfl⟩ | ⟨before, hunended, rfl⟩
      · exact ⟨first, .unclosed, hat, rfl⟩
      · -- a nested tag does not end
        obtain ⟨c, more, hc, htext⟩ := hunended.exists_opener
        have hstrip : t.strip (t.opener ++ c :: more) ≠ none :=
          Tag.strip_ne_none_iff.2 ⟨c, hc, more, List.append_assoc _ _ _⟩
        have hnested := (tagAt_iff htail).2 ⟨before, _, htext, rfl, hstrip⟩
        refine ⟨_, .openEnded, hnested.mono ?_, ?_⟩
        · exact Nat.le_trans hat.start_le (by simp only [Nat.add_assoc, Nat.le_add_right])
        · rw [htext] at htail
          have hplace := htail.standsAt.right.ofOffset_eq
          rw [Location.offset_after, htail.offset_ofOffset] at hplace
          rw [← hplace]

/-- A construct that is found is the first one, and it is read where it begins. -/
theorem first_of_nextExtent (hs : Stands source start text stop)
    (hn : nextExtent source start stop = .ok (some s)) :
    NothingBefore source start stop s.start ∧
      ((∃ t, s.kind = .tag t ∧ TagAt source start stop s.start t) ∨
        ∃ inner, Inline.InlineAt source start stop s.start inner ∧
          s = Inline.span s.start inner) := by
  rcases nextExtent_cases hs with ⟨-, heq⟩ | ⟨first, inner, hat, hfirst, heq⟩ |
    ⟨first, t, hat, hfirst, heq⟩
  · cases heq.symm.trans hn
  · cases heq.symm.trans hn
    exact ⟨hfirst, .inr ⟨inner, hat, rfl⟩⟩
  · obtain ⟨s', htag, he⟩ := map_eq_ok_iff.1 (heq.symm.trans hn)
    cases he
    obtain ⟨rfl, -⟩ := tagExtent_bounds source htag
    exact ⟨hfirst, .inl ⟨t, kind_of_tagExtent htag, hat⟩⟩

/-- Nothing is found where nothing begins. -/
theorem nextExtent_eq_none_iff (hs : Stands source start text stop) :
    nextExtent source start stop = .ok none ↔ Plain source start stop := by
  rcases nextExtent_cases hs with ⟨hplain, heq⟩ | ⟨first, inner, hat, -, heq⟩ |
    ⟨first, t, hat, -, heq⟩
  · exact iff_of_true heq hplain
  · exact iff_of_false (fun h => nomatch heq.symm.trans h) fun h => h.inline first inner hat
  · refine iff_of_false (fun h => ?_) fun h => h.tag first t hat
    obtain ⟨s, -, he⟩ := map_eq_ok_iff.1 (heq.symm.trans h)
    cases he

/-- Where the search fails, a tag begins at the place of the error. -/
theorem tagAt_of_nextExtent_eq_error (hs : Stands source start text stop)
    (hn : nextExtent source start stop = .error e) :
    ∃ n t fault, TagAt source start stop n t ∧
      e = .malformedTag t fault (Location.ofOffset source n) := by
  rcases nextExtent_cases hs with ⟨-, heq⟩ | ⟨first, inner, -, -, heq⟩ | ⟨first, t, hat, -, heq⟩
  · cases heq.symm.trans hn
  · cases heq.symm.trans hn
  · obtain ⟨x, z, rfl, rfl, hstrip⟩ := (tagAt_iff hs).1 hat
    obtain ⟨c, -, more, rfl⟩ := Tag.strip_ne_none_iff.1 hstrip
    rw [List.append_assoc t.opener] at hs
    obtain ⟨n, fault, hnested, he⟩ := tagAt_of_tagExtent_eq_error hat hs.append.2
      (map_eq_error_iff.1 (heq.symm.trans hn))
    exact ⟨n, t, fault, hnested, he⟩

end

/-! ## What is found lies in the range -/

/-- A range of a source that begins and ends between characters. -/
structure IsRange (source : List Char) (start stop : Nat) : Prop where
  begins : IsBoundary source start
  ends : IsBoundary source stop
  le : start ≤ stop

/-- The construct `s` lies in the range from `start` to `stop`, and its body lies in it. -/
structure Extent.Within (source : List Char) (start stop : Nat) (s : Extent) : Prop where
  start_le : start ≤ s.start
  le_stop : s.stop ≤ stop
  whole : IsRange source s.start s.stop
  lt_body : s.start < s.bodyStart
  body_le : s.bodyStop ≤ s.stop
  body : Stands source s.bodyStart s.content s.bodyStop

section

variable {source text : List Char} {start stop : Nat} {s : Extent}

theorem IsRange.stands (h : IsRange source start stop) :
    Stands source start (slice start stop source) stop :=
  stands_slice h.begins h.ends h.le

theorem Stands.isRange (h : Stands source start text stop) : IsRange source start stop := by
  obtain ⟨hstart, hstop⟩ := h.isBoundary
  refine ⟨hstart, hstop, ?_⟩
  obtain ⟨_, _, -, -, rfl⟩ := h
  exact Nat.le_add_right _ _

theorem Extent.Within.start_lt_stop (h : s.Within source start stop) : s.start < s.stop := by
  have hbody := h.body.isRange.le
  have := h.lt_body
  have := h.body_le
  omega

/-- What is found stands in the range, character by character. -/
theorem within_of_nextExtent (hs : Stands source start text stop)
    (hn : nextExtent source start stop = .ok (some s)) : s.Within source start stop := by
  have heq := nextExtent_eq hs.standsAt
  rw [hs.offset_ofOffset, hn] at heq
  obtain ⟨found, hfound, hk⟩ := map_eq_ok_iff.1 heq.symm
  obtain ⟨k, rfl, rfl⟩ := Option.map_eq_some_iff.1 hk
  obtain ⟨htext, hopening⟩ := Construct.next_eq hfound
  rw [List.append_assoc] at htext
  obtain ⟨hstart, hwhole, hstop⟩ := hs.inside_iff.2 ⟨k.before, k.after, htext, rfl, rfl⟩
  obtain ⟨-, hbody, hclosing⟩ :=
    hwhole.inside_iff.2 ⟨k.opening, k.closing, List.append_assoc _ _ _, rfl, rfl⟩
  have hlast : (k.placed start).stop = start + utf8Length k.before + utf8Length k.extent := by
    simp [Construct.placed, Construct.extent, Nat.add_assoc]
  rw [← hlast] at hwhole hstop hclosing
  have := utf8Length_pos hopening
  exact ⟨hstart, hstop, hwhole.isRange, Nat.lt_add_of_pos_right this, hclosing, hbody⟩

end

/-! ## The ranges that are read -/

/-- The reading of a range goes on in another one: in what trimming leaves of the body of the first
construct, or behind this construct. -/
inductive GoesOn (o : ParseOptions) (source : List Char) : Nat × Nat → Nat × Nat → Prop
  | body {start stop : Nat} {s : Extent}
    (h : Scanner.nextBlock? source start stop = some (.ok (some s))) :
    GoesOn o source (start, stop)
      (s.bodyStart + utf8Length (o.trimming s.content).lead,
        s.bodyStart + utf8Length (o.trimming s.content).lead +
          utf8Length (o.trimming s.content).main)
  | rest {start stop : Nat} {s : Extent}
    (h : Scanner.nextBlock? source start stop = some (.ok (some s))) :
    GoesOn o source (start, stop) (s.stop, stop)

section

variable {o : ParseOptions} {source : List Char} {start stop : Nat} {r r' : Nat × Nat}

/-- Only ranges can be searched. -/
theorem stands_of_nextBlock? {found : Except MarkupError (Option Extent)}
    (h : Scanner.nextBlock? source start stop = some found) :
    (∃ text, Stands source start text stop) ∧ found = nextExtent source start stop := by
  obtain ⟨inline, hinline, -⟩ := Option.bind_eq_some_iff.1 h
  obtain ⟨text, htext, -⟩ := Option.map_eq_some_iff.1 hinline
  have hs : Stands source start text stop := slice?_eq_some_iff.1 htext
  exact ⟨⟨text, hs⟩, Option.some.inj (h.symm.trans (Scanner.nextBlock?_eq hs))⟩

/-- The reading of a range goes on in ranges that begin later and end no later. -/
theorem GoesOn.isRange (h : GoesOn o source r r') :
    IsRange source r'.1 r'.2 ∧ r.1 < r'.1 ∧ r'.2 ≤ r.2 := by
  cases h with
  | @body start stop s h =>
    obtain ⟨⟨text, hs⟩, hn⟩ := stands_of_nextBlock? h
    have hwithin := within_of_nextExtent hs hn.symm
    obtain ⟨behind, hcontent⟩ := (o.trimming s.content).lead_append_main_isPrefix
    rw [o.whole_trimming, List.append_assoc] at hcontent
    obtain ⟨hstart, hmain, hstop⟩ := hwithin.body.inside_iff.2 ⟨_, _, hcontent.symm, rfl, rfl⟩
    have := hwithin.start_le
    have := hwithin.lt_body
    have := hwithin.body_le
    have := hwithin.le_stop
    exact ⟨hmain.isRange, by dsimp only; omega, by dsimp only; omega⟩
  | rest h =>
    obtain ⟨⟨text, hs⟩, hn⟩ := stands_of_nextBlock? h
    have hwithin := within_of_nextExtent hs hn.symm
    exact ⟨⟨hwithin.whole.ends, hs.isRange.ends, hwithin.le_stop⟩,
      Nat.lt_of_le_of_lt hwithin.start_le hwithin.start_lt_stop, Nat.le_refl _⟩

/-- All ranges that are read in the course of reading a range lie in it. -/
theorem isRange_of_goesOn (hr : IsRange source r.1 r.2)
    (h : Relation.ReflTransGen (GoesOn o source) r r') :
    IsRange source r'.1 r'.2 ∧ r.1 ≤ r'.1 ∧ r'.2 ≤ r.2 := by
  induction h with
  | refl => exact ⟨hr, Nat.le_refl _, Nat.le_refl _⟩
  | tail _ hstep ih =>
    obtain ⟨hrange, hstart, hstop⟩ := hstep.isRange
    exact ⟨hrange, Nat.le_trans ih.2.1 (Nat.le_of_lt hstart), Nat.le_trans hstop ih.2.2⟩

/-- The reading of a range comes to an end. -/
theorem wellFounded_goesOn (o : ParseOptions) (source : List Char) :
    WellFounded fun r' r => GoesOn o source r r' := by
  refine Subrelation.wf (fun {r' r} h => ?_) (measure fun r : Nat × Nat => r.2 - r.1).wf
  obtain ⟨hrange, hstart, hstop⟩ := GoesOn.isRange h
  have := hrange.le
  show r'.2 - r'.1 < r.2 - r.1
  omega

/-- The search of a range takes slices only between characters of the source and reads no byte
behind its end.

If it finds a construct, this one begins in the range with nothing before it, is not empty and ends
in the range, and its body lies in it, all four of their ends between characters. If it finds none,
nothing begins in the range. If it fails, the error names a tag that begins in the range at the
place of the error.

The same holds of all ranges that are read in the course of reading the range, of which there is no
infinite sequence. -/
theorem nextBlock?_spec (hr : IsRange source start stop) :
    Scanner.nextBlock? source start stop = some (nextExtent source start stop) ∧
      (∀ s, nextExtent source start stop = .ok (some s) →
        (s.Within source start stop ∧ s.start < s.stop) ∧
        NothingBefore source start stop s.start ∧
        ((∃ t, s.kind = .tag t ∧ TagAt source start stop s.start t) ∨
          ∃ inner, Inline.InlineAt source start stop s.start inner ∧
            s = Inline.span s.start inner)) ∧
      (nextExtent source start stop = .ok none ↔ Plain source start stop) ∧
      (∀ e, nextExtent source start stop = .error e →
        ∃ n t fault, TagAt source start stop n t ∧
          e = .malformedTag t fault (Location.ofOffset source n)) ∧
      (∀ o r, Relation.ReflTransGen (GoesOn o source) (start, stop) r →
        (IsRange source r.1 r.2 ∧ start ≤ r.1 ∧ r.2 ≤ stop) ∧
        Scanner.nextBlock? source r.1 r.2 = some (nextExtent source r.1 r.2)) ∧
      ∀ o, WellFounded fun r' r => GoesOn o source r r' := by
  have hs := hr.stands
  refine ⟨Scanner.nextBlock?_eq hs, fun s hn => ?_, nextExtent_eq_none_iff hs,
    fun e => tagAt_of_nextExtent_eq_error hs, fun o r h => ?_, fun o => wellFounded_goesOn o source⟩
  · have hwithin := within_of_nextExtent hs hn
    exact ⟨⟨hwithin, hwithin.start_lt_stop⟩, first_of_nextExtent hs hn⟩
  · have hrange := isRange_of_goesOn hr h
    exact ⟨hrange, Scanner.nextBlock?_eq hrange.1.stands⟩

end

/-- A condition behind a character of two bytes. In its attribute a backslash hides another one. -/
def hidden : List Char := "é<if cond:'\\é>'>${ ü }</if>".toList

def hiddenCond : Extent :=
  ⟨.tag .cond, [("cond", "\\é>")], 2, "${ ü }".toList, 18, 25, 30⟩

/-- The condition is found, and in its body the inline expression. Without its last byte the source
has no closing tag, and the error names the condition. -/
theorem nextBlock?_hidden :
    IsRange hidden 0 30 ∧ IsRange hidden 0 29 ∧
      Scanner.nextBlock? hidden 0 30 = some (.ok (some hiddenCond)) ∧
      NothingBefore hidden 0 30 2 ∧
      Scanner.nextBlock? hidden 18 25 = some (.ok (some (Inline.span 18 [' ', 'ü', ' ']))) ∧
      ∃ n t fault, TagAt hidden 0 29 n t ∧
        MarkupError.malformedTag .cond .unclosed ⟨1, 2, 2⟩ =
          .malformedTag t fault (Location.ofOffset hidden n) := by
  have hr : IsRange hidden 0 30 := (stands_all hidden).isRange
  have hr' : IsRange hidden 0 29 := ⟨hr.begins, isBoundary_iff.1 (by decide), by decide⟩
  have hfound : nextExtent hidden 0 30 = .ok (some hiddenCond) := by decide +kernel
  obtain ⟨hsafe, hwithin, -, -, hrun, -⟩ := nextBlock?_spec hr
  obtain ⟨-, -, -, herror, -⟩ := nextBlock?_spec hr'
  have hbody := (hrun {} _ (.single (.body (hsafe.trans (congrArg some hfound))))).2
  refine ⟨hr, hr', hsafe.trans (congrArg some hfound), (hwithin _ hfound).2.1, hbody.trans ?_,
    herror _ ?_⟩ <;> decide +kernel

end Stencil.Markup
