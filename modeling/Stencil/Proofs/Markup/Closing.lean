import Stencil.Proofs.Markup.Reading
import Stencil.Proofs.Markup.Scanning

/-!
# The search for a closing tag

`Skipped t x tail` says that the search for the closing tag of a tag `t` passes over the text `x`
with `tail` behind it. It passes over text in which no tag of this kind begins
(`Skipped.of_passable`) and over whole tags of this kind (`Skipped.selfClosing`,
`Skipped.container`), and what it passes over can be put together (`Skipped.append`).

So it passes over printed blocks, and the closing tag that it finds behind a printed body is the one
that was printed for it (`findCloser_printBlocks`).
-/

namespace Stencil.Markup

open Stencil.Text

/-! ## Printed attributes hold no tags -/

section

variable {rest : List Char}

theorem quiet_printItem {item : String × String} (hn : IsName item.1)
    (hv : TagFree item.2.toList) : Quiet (printItem item) rest := by
  have hs : printItem item =
      (item.1.toList ++ [':', '\x27']) ++ (escape item.2.toList ++ ['\x27']) := by
    simp [printItem]
  rw [hs]
  refine quiet_append (quiet_of_not_mem ?_ _) (quiet_append ?_ ?_)
  · have := hn.not_mem (c := '<') (by decide)
    simpa using this
  · exact hv.quiet_escape _
  · exact quiet_of_not_mem (by decide) _

theorem quiet_printMore {items : List (String × String)} (hn : ∀ item ∈ items, IsName item.1)
    (hv : ∀ item ∈ items, TagFree item.2.toList) : Quiet (printMore items) rest := by
  induction items with
  | nil => trivial
  | cons item items ih =>
    have hs : printMore (item :: items) = [',', ' '] ++ (printItem item ++ printMore items) := rfl
    rw [hs]
    refine quiet_append (quiet_of_not_mem (by decide) _) (quiet_append ?_ ?_)
    · exact quiet_printItem (hn item List.mem_cons_self) (hv item List.mem_cons_self)
    · exact ih (fun i hi => hn i (List.mem_cons_of_mem _ hi))
        fun i hi => hv i (List.mem_cons_of_mem _ hi)

theorem quiet_printItems {items : List (String × String)} (hn : ∀ item ∈ items, IsName item.1)
    (hv : ∀ item ∈ items, TagFree item.2.toList) : Quiet (printItems items) rest := by
  cases items with
  | nil => trivial
  | cons item items =>
    have hs : printItems (item :: items) = [' '] ++ (printItem item ++ printMore items) := rfl
    rw [hs]
    refine quiet_append (quiet_of_not_mem (by decide) _) (quiet_append ?_ ?_)
    · exact quiet_printItem (hn item List.mem_cons_self) (hv item List.mem_cons_self)
    · exact quiet_printMore (fun i hi => hn i (List.mem_cons_of_mem _ hi))
        fun i hi => hv i (List.mem_cons_of_mem _ hi)

end

/-! ## Places without a tag of one kind -/

/-- No tag of this kind begins here. -/
def Passable (t : Tag) (cs : List Char) : Prop := stripWord t.closer cs = none ∧ t.strip cs = none

instance (t : Tag) : DecidablePred (Passable t) := fun _ => inferInstanceAs (Decidable (_ ∧ _))

theorem passable_of_not_beginsWith (t : Tag) {cs : List Char} (h : ¬ BeginsWith tagMarks cs) :
    Passable t cs := by
  constructor
  · refine Option.eq_none_iff_forall_ne_some.2 fun rest hr => h ⟨['<', '/'], ?_, ?_⟩
    · exact List.mem_cons_self
    · exact ⟨t.word ++ ['>'] ++ rest, by simp [stripWord_eq hr, Tag.closer]⟩
  · refine Option.eq_none_iff_forall_ne_some.2 fun rest hr => h ⟨t.opener, ?_, ?_⟩
    · cases t <;> decide
    · exact ⟨rest, (Tag.strip_eq hr).symm⟩

theorem Quiet.passable {x rest : List Char} (h : Quiet x rest) (t : Tag) :
    Throughout (Passable t) x rest :=
  Throughout.mono h fun _ => passable_of_not_beginsWith t

theorem passable_opener {t u : Tag} (h : u ≠ t) (rest : List Char) :
    Passable t (u.opener ++ rest) := by
  cases t <;> cases u <;> first | exact absurd rfl h | exact ⟨rfl, rfl⟩

theorem passable_closer {t u : Tag} (h : u ≠ t) (rest : List Char) :
    Passable t (u.closer ++ rest) := by
  cases t <;> cases u <;> first | exact absurd rfl h | exact ⟨rfl, rfl⟩

theorem not_mem_word (u : Tag) : '<' ∉ u.word := by
  cases u <;> decide

/-- A tag of another kind is passed over. -/
theorem throughout_openTag {t u : Tag} (h : u ≠ t) {inner rest : List Char}
    (hq : Quiet inner ('>' :: rest)) : Throughout (Passable t) (u.openTag inner) rest := by
  have hs : u.openTag inner = ['<'] ++ (u.word ++ (inner ++ ['>'])) := by
    simp [Tag.openTag, Tag.opener]
  have hp := passable_opener h (inner ++ ['>'] ++ rest)
  rw [hs]
  refine throughout_append.2 ⟨⟨?_, trivial⟩, ?_⟩
  · simpa [Tag.opener] using hp
  · refine throughout_append.2 ⟨?_, throughout_append.2 ⟨hq.passable t, ?_⟩⟩
    · exact (quiet_of_not_mem (not_mem_word u) _).passable t
    · exact (quiet_of_not_mem (by decide) _).passable t

theorem throughout_closer {t u : Tag} (h : u ≠ t) (rest : List Char) :
    Throughout (Passable t) u.closer rest := by
  refine ⟨passable_closer h rest, (quiet_of_not_mem ?_ _).passable t⟩
  have := not_mem_word u
  simpa using this

/-! ## The search for the closing tag -/

namespace Tag

theorem strip_append {t : Tag} {cs after : List Char} (h : t.strip cs = some after)
    (rest : List Char) : t.strip (cs ++ rest) = some (after ++ rest) := by
  obtain ⟨c, r, he, rfl, rfl⟩ := strip_eq_some_iff.1 h
  exact strip_eq_some_iff.2 ⟨c, r ++ rest, he, rfl, by simp⟩

theorem strip_opener (t : Tag) {c : Char} (h : endsName c = true) (rest : List Char) :
    t.strip (t.opener ++ c :: rest) = some (c :: rest) :=
  strip_eq_some_iff.2 ⟨c, rest, h, rfl, rfl⟩

/-- Behind the name of an opening tag there is a character that may end a name. -/
theorem openTag_append (t : Tag) {inner : List Char}
    (he : ∀ c ∈ (inner ++ ['>']).head?, endsName c = true) (rest : List Char) :
    ∃ c r, endsName c = true ∧ inner ++ '>' :: rest = c :: r ∧
      t.openTag inner ++ rest = t.opener ++ c :: r := by
  obtain ⟨c, r, hr⟩ : ∃ c r, inner ++ '>' :: rest = c :: r :=
    List.exists_cons_of_ne_nil (by simp)
  refine ⟨c, r, he c ?_, hr, ?_⟩
  · cases inner with
    | nil => exact congrArg List.head? hr
    | cons d inner => exact congrArg List.head? hr
  · rw [← hr]
    simp [openTag]

theorem find?_of_strip {t : Tag} {c : Char} {cs rest : List Char}
    (h : t.strip (c :: cs) = some rest) : t.find? (c :: cs) = some ([], rest) := by
  rw [find?, h]

end Tag

section

variable {t : Tag} {owner here : Location} {pending : Nat}
  {cs before after lead rest inner tail : List Char}

theorem findCloser_nested (hs : splitAtWord t.closer cs = some (before, after))
    (hf : t.find? before = some (lead, rest))
    (ho : splitOpening false (rest ++ t.closer ++ after) = some (inner, tail)) :
    findCloser t owner pending here cs =
      (findCloser t owner (pendingAfter inner pending) (here.after (lead ++ t.openTag inner))
        tail).map (prepend (lead ++ t.openTag inner)) := by
  rw [findCloser]
  split
  · simp_all
  · rename_i hs'
    cases hs.symm.trans hs'
    split
    · rename_i hf'
      cases hf.symm.trans hf'
      split
      · simp_all
      · rename_i ho'
        cases ho.symm.trans ho'
        rfl
    · simp_all

theorem findCloser_openEnded (hs : splitAtWord t.closer cs = some (before, after))
    (hf : t.find? before = some (lead, rest))
    (ho : splitOpening false (rest ++ t.closer ++ after) = none) :
    findCloser t owner pending here cs = .error (.malformedTag t .openEnded (here.after lead)) := by
  rw [findCloser]
  split
  · simp_all
  · rename_i hs'
    cases hs.symm.trans hs'
    split
    · rename_i hf'
      cases hf.symm.trans hf'
      split
      · rfl
      · rename_i ho'
        cases ho.symm.trans ho'
    · simp_all

theorem findCloser_unclosed (hs : splitAtWord t.closer cs = none) :
    findCloser t owner pending here cs = .error (.malformedTag t .unclosed owner) := by
  rw [findCloser]
  split
  · rfl
  · simp_all

theorem findCloser_zero (hs : splitAtWord t.closer cs = some (before, after))
    (hf : t.find? before = none) : findCloser t owner 0 here cs = .ok (before, after) := by
  rw [findCloser]
  split
  · simp_all
  · rename_i hs'
    cases hs.symm.trans hs'
    split
    · simp_all
    · rfl

theorem findCloser_succ (hs : splitAtWord t.closer cs = some (before, after))
    (hf : t.find? before = none) :
    findCloser t owner (pending + 1) here cs =
      (findCloser t owner pending (here.after (before ++ t.closer)) after).map
        (prepend (before ++ t.closer)) := by
  rw [findCloser]
  split
  · simp_all
  · rename_i hs'
    cases hs.symm.trans hs'
    split
    · simp_all
    · rfl

theorem map_map_prepend (x y : List Char) (r : Except MarkupError (List Char × List Char)) :
    (r.map (prepend y)).map (prepend x) = r.map (prepend (x ++ y)) := by
  cases r <;> simp [Except.map]

/-- A place without a tag of the kind is passed over. -/
theorem findCloser_cons {c : Char} (hp : Passable t (c :: cs))
    (hc : splitAtWord t.closer cs ≠ none) :
    findCloser t owner pending here (c :: cs) =
      (findCloser t owner pending (here.advance c) cs).map (prepend [c]) := by
  obtain ⟨⟨before, after⟩, hs⟩ := Option.ne_none_iff_exists'.1 hc
  have hs' : splitAtWord t.closer (c :: cs) = some (c :: before, after) := by
    rw [splitAtWord, hp.1, hs]
    rfl
  have hstrip : t.strip (c :: before) = none := by
    apply Option.eq_none_iff_forall_ne_some.2
    intro r hr
    have := Tag.strip_append hr (t.closer ++ after)
    rw [List.cons_append, ← List.append_assoc, ← splitAtWord_eq hs, hp.2] at this
    cases this
  have hfind : t.find? (c :: before) = (t.find? before).map (prepend [c]) := by
    rw [Tag.find?, hstrip]
    rfl
  cases hf : t.find? before with
  | some p =>
    obtain ⟨lead, rest⟩ := p
    rw [hf] at hfind
    cases ho : splitOpening false (rest ++ t.closer ++ after) with
    | some p =>
      obtain ⟨inner, tail⟩ := p
      rw [findCloser_nested hs hf ho, findCloser_nested hs' hfind ho, map_map_prepend]
      rfl
    | none =>
      rw [findCloser_openEnded hs hf ho, findCloser_openEnded hs' hfind ho]
      rfl
  | none =>
    rw [hf] at hfind
    cases pending with
    | zero =>
      rw [findCloser_zero hs hf, findCloser_zero hs' hfind]
      rfl
    | succ pending =>
      rw [findCloser_succ hs hf, findCloser_succ hs' hfind, map_map_prepend]
      rfl

/-- Text without tags of the kind is passed over. -/
theorem findCloser_append {x : List Char} (hp : Throughout (Passable t) x cs)
    (hc : splitAtWord t.closer cs ≠ none) :
    findCloser t owner pending here (x ++ cs) =
      (findCloser t owner pending (here.after x) cs).map (prepend x) := by
  induction x generalizing here with
  | nil =>
    show findCloser t owner pending here cs = (findCloser t owner pending here cs).map id
    cases findCloser t owner pending here cs <;> rfl
  | cons c x ih =>
    rw [List.cons_append, findCloser_cons hp.1 (splitAtWord_append_ne_none x hc), ih hp.2,
      map_map_prepend]
    rfl

/-- No closing tag begins in the name of an opening tag. -/
theorem throughout_opener (t : Tag) {c : Char} (h : Tag.endsName c = true) (rest : List Char) :
    Throughout (stripWord t.closer · = none) (t.opener ++ [c]) rest := by
  have hc : '<' ∉ t.word ++ [c] := by
    rw [List.mem_append, not_or]
    refine ⟨not_mem_word t, fun hc => ?_⟩
    obtain rfl := List.mem_singleton.1 hc
    exact absurd h (by decide)
  refine ⟨?_, ((quiet_of_not_mem hc rest).passable t).mono fun _ h => h.1⟩
  cases t <;> rfl

/-- A closing tag that stands behind the beginning of an opening tag stands behind the character
that ends the name. -/
theorem splitAtWord_opener {c : Char} (h : Tag.endsName c = true)
    (hc : splitAtWord t.closer (t.opener ++ c :: rest) ≠ none) :
    ∃ before after, splitAtWord t.closer (t.opener ++ c :: rest) =
        some (t.opener ++ c :: before, after) ∧ rest = before ++ t.closer ++ after := by
  have ht : t.opener ++ c :: rest = t.opener ++ [c] ++ rest := by simp
  have hsplit := splitAtWord_append (throughout_opener t h rest)
  rw [ht, hsplit, Ne, Option.map_eq_none_iff] at hc
  obtain ⟨⟨before, after⟩, hs⟩ := Option.ne_none_iff_exists'.1 hc
  refine ⟨before, after, ?_, splitAtWord_eq hs⟩
  rw [ht, hsplit, hs]
  simp [prepend]

/-- An opening tag of the kind has to be closed first, unless it closes itself. -/
theorem findCloser_openTag (hi : IsInner inner)
    (hc : splitAtWord t.closer (t.openTag inner ++ cs) ≠ none) :
    findCloser t owner pending here (t.openTag inner ++ cs) =
      (findCloser t owner (pendingAfter inner pending) (here.after (t.openTag inner)) cs).map
        (prepend (t.openTag inner)) := by
  obtain ⟨c, r, hcr, hr, ht⟩ := t.openTag_append hi.endsName cs
  rw [ht] at hc ⊢
  obtain ⟨before, after, hs, hrest⟩ := splitAtWord_opener hcr hc
  have ho : splitOpening false (c :: before ++ t.closer ++ after) = some (inner, cs) := by
    rw [List.cons_append, List.cons_append, ← hrest, ← hr]
    exact hi.splits cs
  rw [findCloser_nested hs (Tag.find?_of_strip (t.strip_opener hcr before)) ho]
  rfl

/-- An opening tag of the kind that no `>` ends. -/
theorem findCloser_opener {c : Char} (h : Tag.endsName c = true)
    (hc : splitAtWord t.closer (t.opener ++ c :: rest) ≠ none)
    (ho : splitOpening false (c :: rest) = none) :
    findCloser t owner pending here (t.opener ++ c :: rest) =
      .error (.malformedTag t .openEnded here) := by
  obtain ⟨before, after, hs, hrest⟩ := splitAtWord_opener h hc
  rw [hrest, ← List.cons_append, ← List.cons_append] at ho
  exact findCloser_openEnded hs (Tag.find?_of_strip (t.strip_opener h before)) ho

/-- The closing tag of a tag opened in the body. -/
theorem findCloser_closer_succ :
    findCloser t owner (pending + 1) here (t.closer ++ cs) =
      (findCloser t owner pending (here.after t.closer) cs).map (prepend t.closer) :=
  findCloser_succ (splitAtWord_word ('/' :: (t.word ++ ['>'])) cs) rfl

/-- The closing tag that was looked for. -/
theorem findCloser_closer_zero : findCloser t owner 0 here (t.closer ++ cs) = .ok ([], cs) :=
  findCloser_zero (splitAtWord_word ('/' :: (t.word ++ ['>'])) cs) rfl

theorem splitAtWord_closer_ne_none (t : Tag) (x cs : List Char) :
    splitAtWord t.closer (x ++ (t.closer ++ cs)) ≠ none := by
  refine splitAtWord_append_ne_none x ?_
  rw [Tag.closer, splitAtWord_word]
  exact Option.some_ne_none _

end

/-! ## What the search passes over -/

/-- `x` is passed over by every search for the closing tag of `t` that stands behind `tail`. -/
def Skipped (t : Tag) (x tail : List Char) : Prop :=
  ∀ (owner : Location) (pending : Nat) (here : Location), splitAtWord t.closer tail ≠ none →
    findCloser t owner pending here (x ++ tail) =
      (findCloser t owner pending (here.after x) tail).map (prepend x)

section

variable {t : Tag} {x y tail inner body : List Char}

theorem Skipped.append (hx : Skipped t x (y ++ tail)) (hy : Skipped t y tail) :
    Skipped t (x ++ y) tail := by
  intro owner pending here hc
  rw [List.append_assoc, hx owner pending here (splitAtWord_append_ne_none y hc),
    hy owner pending _ hc, map_map_prepend, Location.after_append]

theorem Skipped.of_passable (h : Throughout (Passable t) x tail) : Skipped t x tail :=
  fun _ _ _ hc => findCloser_append h hc

theorem skipped_nil (t : Tag) (tail : List Char) : Skipped t [] tail := .of_passable trivial

theorem Skipped.of_quiet (h : Quiet x tail) : Skipped t x tail := .of_passable (h.passable t)

/-- A tag of the kind that closes itself is passed over. -/
theorem Skipped.selfClosing (hi : IsInner inner) (hs : isSelfClosing inner = true) :
    Skipped t (t.openTag inner) tail := by
  intro owner pending here hc
  have hp : pendingAfter inner pending = pending := if_pos hs
  rw [findCloser_openTag hi (splitAtWord_append_ne_none _ hc), hp]

/-- A container of the kind is passed over if its body is. -/
theorem Skipped.container (hi : IsInner inner) (hs : isSelfClosing inner = false)
    (hb : Skipped t body (t.closer ++ tail)) :
    Skipped t (t.openTag inner ++ body ++ t.closer) tail := by
  intro owner pending here hc
  have hclose := splitAtWord_append_ne_none t.closer hc
  have hbody := splitAtWord_append_ne_none body hclose
  have hopen := splitAtWord_append_ne_none (t.openTag inner) hbody
  have hp : pendingAfter inner pending = pending + 1 := if_neg (by simp [hs])
  simp only [List.append_assoc]
  rw [findCloser_openTag hi hopen, hp, hb owner (pending + 1) _ hclose, findCloser_closer_succ]
  simp only [map_map_prepend, Location.after_append]

/-- Behind a text that is passed over the closing tag is found. -/
theorem Skipped.findCloser {rest : List Char} (h : Skipped t x (t.closer ++ rest))
    (owner here : Location) :
    findCloser t owner 0 here (x ++ (t.closer ++ rest)) = .ok (x, rest) := by
  rw [h owner 0 here (splitAtWord_closer_ne_none t [] rest), findCloser_closer_zero]
  simp [Except.map, prepend]

end

/-! ## Printed blocks -/

section

variable {arrange : Attributes → List (String × String)}

/-- The text between the name of a tag and its `>`, as it is printed: `closes` says whether the tag
closes itself. -/
structure TagInner (inner : List Char) (attributes : Attributes) (closes : Bool) : Prop
    extends IsInner inner where
  quiet : ∀ rest, Quiet inner rest
  isSelfClosing : isSelfClosing inner = closes
  parse : Attributes.parse (attributeText inner) = attributes

theorem endsName_printItems (items : List (String × String)) {cs : List Char}
    (h : ∀ c ∈ cs.head?, Tag.endsName c = true) :
    ∀ c ∈ (printItems items ++ cs).head?, Tag.endsName c = true := by
  cases items with
  | nil => exact h
  | cons item items =>
    rintro c ⟨⟩
    decide

theorem isInner_printItems {items : List (String × String)} (hn : ∀ item ∈ items, IsName item.1) :
    IsInner (printItems items) where
  endsName := endsName_printItems items (by rintro c ⟨⟩; decide)
  splits rest := by
    rw [splitOpening_printItems hn, splitOpening_close]
    simp [prepend]

section

variable {attributes : Attributes} (h : PrintableAttributes attributes)
  (hp : (arrange attributes).Perm attributes)

include h hp

theorem isName_of_mem_arrange : ∀ item ∈ arrange attributes, IsName item.1 :=
  fun item hi => h.names item (hp.mem_iff.1 hi)

theorem quiet_arrange (rest : List Char) : Quiet (printItems (arrange attributes)) rest :=
  quiet_printItems (isName_of_mem_arrange h hp) fun item hi => h.values item (hp.mem_iff.1 hi)

theorem parse_arrange : Attributes.parse (printItems (arrange attributes)) = attributes :=
  Attributes.parse_printItems h.sorted hp h.names

/-- The attributes of a container. -/
theorem tagInner_printItems : TagInner (printItems (arrange attributes)) attributes false where
  toIsInner := isInner_printItems (isName_of_mem_arrange h hp)
  quiet := quiet_arrange h hp
  isSelfClosing := isSelfClosing_printItems _
  parse := by rw [attributeText_printItems, parse_arrange h hp]

/-- The attributes of an inclusion, which closes itself. -/
theorem tagInner_inclusionInner : TagInner (inclusionInner arrange attributes) attributes true where
  endsName := by
    rw [inclusionInner, List.append_assoc]
    exact endsName_printItems _ (by rintro c ⟨⟩; decide)
  quiet rest := quiet_append (quiet_arrange h hp _) (quiet_of_not_mem (by decide) _)
  splits rest := by
    rw [inclusionInner, List.append_assoc,
      splitOpening_printItems (isName_of_mem_arrange h hp),
      splitOpening_append (by decide) (by decide), splitOpening_close]
    simp [prepend]
  isSelfClosing := isSelfClosing_concat _
  parse := by rw [inclusionInner, attributeText_concat, parse_arrange h hp]

end

/-- A tag without attributes. -/
theorem tagInner_nil : TagInner [] [] false where
  endsName := by rintro c ⟨⟩; decide
  quiet _ := trivial
  splits _ := rfl
  isSelfClosing := rfl
  parse := by simp [Attributes.parse, Attributes.readList, attributeText, Markup.isSelfClosing,
    trimEnd, trimStart, Fields.ofList]

/-- A printed container is passed over if its body is. -/
theorem Skipped.printedContainer {t u : Tag} {inner body tail : List Char}
    {attributes : Attributes} (hi : TagInner inner attributes false)
    (hb : Skipped t body (u.closer ++ tail)) :
    Skipped t (u.openTag inner ++ body ++ u.closer) tail := by
  by_cases hu : u = t
  · subst hu
    exact .container hi.toIsInner hi.isSelfClosing hb
  · refine .append (.append ?_ hb) (.of_passable (throughout_closer hu tail))
    exact .of_passable (throughout_openTag hu (hi.quiet _))

/-- A printed tag that closes itself is passed over. -/
theorem Skipped.printedSelfClosing {t u : Tag} {inner tail : List Char} {attributes : Attributes}
    (hi : TagInner inner attributes true) : Skipped t (u.openTag inner) tail := by
  by_cases hu : u = t
  · subst hu
    exact .selfClosing hi.toIsInner hi.isSelfClosing
  · exact .of_passable (throughout_openTag hu (hi.quiet _))

/-- A block that is no text begins with a dollar sign or an angle bracket. -/
theorem boundary_printBlock {block : Block} (h : isText block = false) (rest : List Char) :
    Boundary (printBlock arrange block ++ rest) := by
  cases block with
  | text => cases h
  | inline => exact boundary_dollar _
  | loop | cond | static | inclusion => exact boundary_angle _

theorem boundary_printBlocks {blocks : List Block} {tail : List Char}
    (h : ∀ next ∈ blocks.head?, isText next = false) (ht : Boundary tail) :
    Boundary (printBlocks arrange blocks ++ tail) := by
  cases blocks with
  | nil => exact ht
  | cons block blocks =>
    rw [printBlocks, List.append_assoc]
    exact boundary_printBlock (h block rfl) _

theorem skipped_inline {t : Tag} {l : Location} {expression : String}
    (h : TagFree expression.toList) (tail : List Char) :
    Skipped t (printBlock arrange (.inline l expression)) tail := by
  have hs : printBlock arrange (.inline l expression) =
      ['$', '{'] ++ (expression.toList ++ ['}']) := rfl
  rw [hs]
  refine .of_quiet (quiet_append (quiet_of_not_mem (by decide) _) ?_)
  exact quiet_append (h.quiet (boundary_brace _)) (quiet_of_not_mem (by decide) _)

mutual

/-- A printed block is passed over. -/
theorem skipped_printBlock (harrange : ∀ attributes, (arrange attributes).Perm attributes)
    (t : Tag) (block : Block) (h : PrintableBlock block) {tail : List Char}
    (ht : isText block = true → Boundary tail) : Skipped t (printBlock arrange block) tail := by
  match block, h with
  | .text _ _, ⟨_, _, hfree⟩ => exact .of_quiet (hfree.quiet (ht rfl))
  | .inline _ _, ⟨_, _, _, hfree⟩ => exact skipped_inline hfree tail
  | .loop _ _ _ attributes _ body, ⟨ha, _, _, _, _, hb⟩ =>
    exact .printedContainer (tagInner_printItems ha (harrange attributes))
      (skipped_printBlocks harrange t body hb (boundary_angle _))
  | .cond _ _ attributes _ body, ⟨ha, _, hb⟩ =>
    exact .printedContainer (tagInner_printItems ha (harrange attributes))
      (skipped_printBlocks harrange t body hb (boundary_angle _))
  | .static _ _ body, hb =>
    exact .printedContainer tagInner_nil
      (skipped_printBlocks harrange t body hb (boundary_angle _))
  | .inclusion _ _ attributes, ⟨ha, _, _⟩ =>
    exact .printedSelfClosing (tagInner_inclusionInner ha (harrange attributes))

/-- Printed blocks are passed over. -/
theorem skipped_printBlocks (harrange : ∀ attributes, (arrange attributes).Perm attributes)
    (t : Tag) (blocks : List Block) (h : PrintableBlocks blocks) {tail : List Char}
    (ht : Boundary tail) : Skipped t (printBlocks arrange blocks) tail := by
  match blocks, h with
  | [], _ => exact skipped_nil t tail
  | block :: blocks, ⟨hblock, hnext, hblocks⟩ =>
    refine Skipped.append ?_ (skipped_printBlocks harrange t blocks hblocks ht)
    exact skipped_printBlock harrange t block hblock fun hx => boundary_printBlocks (hnext hx) ht

end

/-- Behind a printed body the closing tag printed for it is found. -/
theorem findCloser_printBlocks (harrange : ∀ attributes, (arrange attributes).Perm attributes)
    {blocks : List Block} (h : PrintableBlocks blocks) (t : Tag) (owner here : Location)
    (rest : List Char) :
    findCloser t owner 0 here (printBlocks arrange blocks ++ (t.closer ++ rest)) =
      .ok (printBlocks arrange blocks, rest) :=
  (skipped_printBlocks harrange t blocks h (boundary_angle _)).findCloser owner here

end

end Stencil.Markup
