import Stencil.Markup.Search
import Stencil.Text.Utf8

/-!
# The search by byte offsets

The search for the first construct of a range as it walks over the source: it compares single bytes,
counts in bytes and cuts slices out of the source and out of parts of it. `nextBlock?` gives nothing
if a slice is asked for that is out of bounds or begins or ends inside a character, or a byte behind
the end. Between two boundaries this does not happen, and the search finds what `nextExtent` does
(`Stencil.Proofs.Markup.Scanner`).

The search goes on behind what it has found (`lt_of_openTag?`), so that it comes to an end.
-/

namespace Stencil.Markup.Scanner

open Stencil.Text

/-! ## Locations -/

/-- The location of a byte offset: the line feeds before it are counted, and the characters behind
the last of these. -/
def location? (source : List Char) (offset : Nat) : Option Location :=
  let offset := min offset (utf8Length source)
  (slice? 0 offset source).bind fun before =>
    let lineStart := utf8Length (before.reverse.dropWhile (· ≠ '\n')).reverse
    (slice? lineStart (utf8Length before) before).map fun line =>
      ⟨before.count '\n' + 1, line.length + 1, offset⟩

/-! ## The begin of a tag -/

/-- Of these kinds the first one whose name stands at the beginning of `rest`, with a character
behind it that may follow it. -/
def kindOf? (rest : List Char) : List Tag → Option (Option Tag)
  | [] => some none
  | t :: tags =>
    if (stripWord t.word rest).isSome then
      (slice? (utf8Length t.word) (utf8Length rest) rest).bind fun behind =>
        if behind.head?.any Tag.endsName then some (some t) else kindOf? rest tags
    else kindOf? rest tags

/-- The first tag of one of these kinds among the angle brackets of `cs`, before which `text` holds
`offset` bytes. -/
def tagFrom? (tags : List Tag) (text : List Char) (offset : Nat) :
    List Char → Option (Option (Nat × Tag))
  | [] => some none
  | c :: cs =>
    if c = '<' then
      (slice? (offset + 1) (utf8Length text) text).bind fun rest =>
        (kindOf? rest tags).bind fun found =>
          match found with
          | some t => some (some (offset, t))
          | none => tagFrom? tags text (offset + c.utf8Size) cs
    else tagFrom? tags text (offset + c.utf8Size) cs

/-- The first tag of one of these kinds between two byte offsets, and where it begins. -/
def tagIn? (source : List Char) (tags : List Tag) (start stop : Nat) :
    Option (Option (Nat × Tag)) :=
  (slice? start stop source).bind fun text =>
    (tagFrom? tags text 0 text).map (Option.map fun p => (start + p.1, p.2))

/-! ## Opening tags -/

/-- The byte offset of the `>` that ends an opening tag, looked for from `pos` on and before
`limit`. Inside quotes a backslash hides the byte after it. -/
def bracket? (source : List Char) (limit : Nat) (quoted : Bool) (pos : Nat) :
    Option (Option Nat) :=
  if pos < limit then
    match peek source pos with
    | none => none
    | some b =>
      if b = '\\' && quoted then bracket? source limit quoted (pos + 2)
      else if b = '\x27' then bracket? source limit (!quoted) (pos + 1)
      else if b = '>' && !quoted then some (some pos)
      else bracket? source limit quoted (pos + 1)
  else some none
termination_by limit - pos

/-- An opening tag: where it and its attribute list end, and whether it closes itself. -/
structure OpenTag where
  stop : Nat
  attributesStart : Nat
  attributesStop : Nat
  selfClosing : Bool

/-- The opening tag of kind `t` that begins at `start`. -/
def openTag? (source : List Char) (t : Tag) (limit start : Nat) :
    Option (Except MarkupError OpenTag) :=
  let first := start + 1 + utf8Length t.word
  (bracket? source limit false first).bind fun found =>
    match found with
    | none => (location? source start).map fun l => .error (.malformedTag t .openEnded l)
    | some pos =>
      (slice? first pos source).map fun raw =>
        let selfClosing := (trimEnd raw).getLast? = some '/'
        .ok ⟨pos + 1, first, if selfClosing then first + utf8Length (trimEnd raw) - 1 else pos,
          selfClosing⟩

theorem bracket?_bounds {source : List Char} {limit pos stop : Nat} {quoted : Bool}
    (h : bracket? source limit quoted pos = some (some stop)) : pos ≤ stop ∧ stop < limit := by
  fun_induction bracket? source limit quoted pos with
  | case1 => cases h
  | case2 | case3 | case5 =>
    rename_i ih
    have := ih h
    omega
  | case4 =>
    cases h
    omega
  | case6 => cases h

/-- An opening tag ends behind its begin, at the limit at the latest. -/
theorem lt_of_openTag? {source : List Char} {t : Tag} {limit start : Nat} {o : OpenTag}
    (h : openTag? source t limit start = some (.ok o)) : start < o.stop ∧ o.stop ≤ limit := by
  obtain ⟨found, hfound, h⟩ := Option.bind_eq_some_iff.1 h
  cases found with
  | none =>
    obtain ⟨l, -, h⟩ := Option.map_eq_some_iff.1 h
    cases h
  | some pos =>
    obtain ⟨raw, -, h⟩ := Option.map_eq_some_iff.1 h
    cases h
    have := bracket?_bounds hfound
    dsimp only
    omega

/-! ## Closing tags -/

theorem le_of_tagIn? {source : List Char} {tags : List Tag} {start stop first : Nat} {t : Tag}
    (h : tagIn? source tags start stop = some (some (first, t))) : start ≤ first := by
  obtain ⟨text, -, h⟩ := Option.bind_eq_some_iff.1 h
  obtain ⟨found, -, h⟩ := Option.map_eq_some_iff.1 h
  obtain ⟨p, -, he⟩ := Option.map_eq_some_iff.1 h
  cases he
  exact Nat.le_add_right _ _

/-- A word that stands in a slice ends in it. -/
theorem le_of_splitAtWord {word source text before after : List Char} {start stop : Nat}
    (h : slice? start stop source = some text)
    (hs : splitAtWord word text = some (before, after)) :
    start + utf8Length before + utf8Length word ≤ stop := by
  have hlength := utf8Length_of_slice? h
  rw [splitAtWord_eq hs, utf8Length_append, utf8Length_append] at hlength
  omega

/-- Where the closing tag that matches begins and ends, looked for from `pos` on; `pending` counts
the tags of the same kind that have been opened and not closed yet, and the tag to be closed begins
at `owner`. -/
def closingTag? (source : List Char) (t : Tag) (owner limit pending pos : Nat) :
    Option (Except MarkupError (Nat × Nat)) :=
  match h : slice? pos limit source with
  | none => none
  | some text =>
    match hs : splitAtWord t.closer text with
    | none => (location? source owner).map fun l => .error (.malformedTag t .unclosed l)
    | some (before, _) =>
      have := le_of_splitAtWord h hs
      have := t.utf8Length_closer_pos
      let close := pos + utf8Length before
      match hf : tagIn? source [t] pos close with
      | none => none
      | some (some (start, _)) =>
        have := le_of_tagIn? hf
        match ho : openTag? source t limit start with
        | none => none
        | some (.error e) => some (.error e)
        | some (.ok o) =>
          have := lt_of_openTag? ho
          closingTag? source t owner limit (if o.selfClosing then pending else pending + 1) o.stop
      | some none =>
        match pending with
        | 0 => some (.ok (close, close + utf8Length t.closer))
        | pending + 1 => closingTag? source t owner limit pending (close + utf8Length t.closer)
termination_by limit - pos

/-! ## Attributes -/

/-- The attributes of the matches in `text`, if the text between them consists of separators. The
first of them is looked for behind `cursor`. -/
def collect? (text : List Char) (cursor : Nat) :
    List (List Char × List (List Char)) → Option (Option (List (String × String)))
  | [] =>
    (slice? cursor (utf8Length text) text).map fun rest =>
      if (trim rest).isEmpty then some [] else none
  | (skipped, pieces) :: more =>
    let first := cursor + utf8Length skipped
    (slice? cursor first text).bind fun gap =>
      if Attributes.isGap (cursor = 0) gap then
        (collect? text (first + utf8Length pieces.flatten) more).map
          (Option.map (Attributes.item pieces :: ·))
      else some none

/-- The attributes of a text; a text that is no attribute list has none. -/
def attributes? (text : List Char) : Option Attributes :=
  (collect? text 0 (Pattern.searchAll Attributes.pattern text).1).map fun found =>
    match found with
    | some items => Fields.ofList items
    | none => []

/-! ## Constructs -/

/-- The construct of the tag `t` that begins at `start`. -/
def tagBlock? (source : List Char) (t : Tag) (limit start : Nat) :
    Option (Except MarkupError Extent) :=
  (openTag? source t limit start).bind fun opened =>
    match opened with
    | .error e => some (.error e)
    | .ok o =>
      (slice? o.attributesStart o.attributesStop source).bind fun text =>
        (attributes? text).bind fun attributes =>
          if !t.isContainer || o.selfClosing then
            some (.ok ⟨.tag t, attributes, start, [], o.stop, o.stop, o.stop⟩)
          else
            (closingTag? source t start limit 0 o.stop).bind fun closed =>
              match closed with
              | .error e => some (.error e)
              | .ok (first, last) =>
                (slice? o.stop first source).map fun content =>
                  .ok ⟨.tag t, attributes, start, content, o.stop, first, last⟩

/-- The first match of the pattern of inline expressions in the slice between two byte offsets. -/
def inline? (source : List Char) (start stop : Nat) : Option (Option Extent) :=
  (slice? start stop source).map fun _ => Inline.searchIn? source start stop

/-- The first construct between two byte offsets. -/
def nextBlock? (source : List Char) (start stop : Nat) :
    Option (Except MarkupError (Option Extent)) :=
  (inline? source start stop).bind fun inline =>
    (tagIn? source Tag.all start stop).bind fun tag =>
      match tag, inline with
      | none, none => some (.ok none)
      | none, some s => some (.ok (some s))
      | some (first, t), none => (tagBlock? source t stop first).map (Except.map some)
      | some (first, t), some s =>
        if first < s.start then (tagBlock? source t stop first).map (Except.map some)
        else some (.ok (some s))

end Stencil.Markup.Scanner
