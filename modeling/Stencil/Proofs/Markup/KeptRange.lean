import Stencil.Markup.KeptRange
import Stencil.Proofs.Markup.FirstConstruct
import Stencil.Proofs.Markup.Pieces

/-!
# Trimming in place is exact

Between two boundaries, trimming in place asks for no slice that cannot be taken, and what it keeps
are ranges of the pieces of the body (`KeptRange.trim?_eq`). They enclose all pieces but the lead
and the spaces, where these stand in the source (`KeptRange.fits_range`).

Reading a body by these ranges gives content and terminator as its raw body (`readBody?_eq`), and so
the bodies of all containers of a template are read (`readBody?_of_nested`). The main statement
(`trim?_fits_cuts`) puts this together with the rules of trimming.
-/

namespace Stencil.Markup

open Stencil.Text

/-! ## Ranges that are kept -/

namespace Trimmed

/-- What is kept of a body that begins at `start` and was cut into these pieces. -/
def range (cut : Trimmed) (start : Nat) : KeptRange :=
  let first := start + utf8Length cut.lead
  let close := start + utf8Length cut.beforeTail
  ⟨first, first + utf8Length cut.main,
    if cut.isSevered then some (close, close + utf8Length cut.terminator) else none⟩

section

variable {cut : Trimmed}

theorem isSome_terminator_range (cut : Trimmed) (start : Nat) :
    (cut.range start).terminator.isSome = cut.isSevered := by
  unfold range
  cases cut.isSevered <;> rfl

theorem range_of_isSevered (h : cut.isSevered = true) (start : Nat) :
    let first := start + utf8Length cut.lead
    let close := first + utf8Length cut.content + utf8Length cut.spaces
    cut.range start = ⟨first, first + utf8Length cut.content,
      some (close, close + utf8Length cut.terminator)⟩ := by
  simp [range, main, beforeTail, h, Nat.add_assoc]

theorem range_of_not_isSevered (h : ¬ cut.isSevered = true) (start : Nat) :
    let first := start + utf8Length cut.lead
    cut.range start = ⟨first, first + utf8Length cut.kept, none⟩ := by
  simp [range, main, h]

end

end Trimmed

namespace KeptRange

/-- A body from `start` up to `stop` was cut into pieces. They stand in the source one behind the
other, and all but the lead and the spaces are kept. -/
structure Fits (kept : KeptRange) (source : List Char) (start stop : Nat) (cut : Trimmed) :
    Prop where
  lead : Stands source start cut.lead kept.start
  /-- A terminator without a range of its own is kept in one range with the content. -/
  joined : kept.terminator = none →
    Stands source kept.start (cut.content ++ cut.terminator) kept.stop ∧
      Stands source kept.stop cut.spaces stop
  severed : ∀ first last, kept.terminator = some (first, last) →
    Stands source kept.start cut.content kept.stop ∧ Stands source kept.stop cut.spaces first ∧
      Stands source first cut.terminator last ∧ last = stop

section

variable {source body : List Char} {start stop : Nat} {cut : Trimmed}

theorem leadStop?_eq (h : cut.Cuts body) (start : Nat) :
    leadStop? start body = some (start + utf8Length cut.lead) := by
  have hlength : utf8Length body - utf8Length (body.dropWhile (· = ' ')) =
      utf8Length (body.takeWhile (· = ' ')) := by
    conv => lhs; lhs; rw [← List.takeWhile_append_dropWhile (p := (· = ' ')) (l := body)]
    rw [utf8Length_append, Nat.add_sub_cancel]
  have hslice := slice?_append (body.takeWhile (· = ' ')) (body.dropWhile (· = ' ')) []
  rw [List.append_nil, List.takeWhile_append_dropWhile] at hslice
  rw [leadStop?, hlength, hslice, Option.map_some]
  refine congrArg some ?_
  rcases h.lead with ⟨n, hn⟩ | ⟨hnil, hnone⟩
  · rw [← h.lead_append, hn, Trimmed.takeWhile_blankLine, Trimmed.dropWhile_blankLine,
      List.head?_cons, if_pos rfl, blankLine, utf8Length_append, Nat.add_assoc]
    rfl
  · have hhead : (body.dropWhile (· = ' ')).head? ≠ some '\n' := by
      intro hhead
      obtain ⟨rest, hrest⟩ := List.head?_eq_some_iff.1 hhead
      exact hnone _ ⟨rest, Trimmed.blankLine_append hrest⟩
    rw [if_neg hhead, hnil]
    rfl

theorem terminatorLength_eq (h : cut.Cuts body) :
    terminatorLength (cut.content ++ cut.spaces ++ cut.terminator) =
      utf8Length cut.terminator := by
  have hmem := h.terminator
  have hsuffix : cut.terminator <:+ cut.content ++ cut.spaces ++ cut.terminator :=
    List.suffix_append _ _
  have hlongest := h.longest
  rw [terminatorLength]
  generalize cut.content ++ cut.spaces ++ cut.terminator = rest at hsuffix hlongest ⊢
  generalize cut.terminator = terminator at hmem hsuffix hlongest ⊢
  simp only [terminators, List.mem_cons, List.not_mem_nil, or_false, forall_eq_or_imp,
    forall_eq, ← List.isSuffixOf_iff_suffix] at hmem hsuffix hlongest
  simp only [Bool.or_eq_true]
  obtain ⟨hcrlf, hlf, hcr, -⟩ := hlongest
  rcases hmem with rfl | rfl | rfl | rfl
  · rw [if_pos hsuffix]
    rfl
  · rw [if_neg fun h => absurd (hcrlf h) (by decide), if_pos (.inl hsuffix)]
    rfl
  · rw [if_neg fun h => absurd (hcrlf h) (by decide), if_pos (.inr hsuffix)]
    rfl
  · rw [if_neg fun h => absurd (hcrlf h) (by decide), if_neg]
    · rfl
    · rintro (h | h)
      · exact absurd (hlf h) (by decide)
      · exact absurd (hcr h) (by decide)

theorem ofRest?_eq (h : cut.Cuts body) (start : Nat) :
    ofRest? (start + utf8Length cut.lead) (start + utf8Length body)
      (cut.content ++ cut.spaces ++ cut.terminator) = some (cut.range start) := by
  have hslice : slice? 0 (utf8Length (cut.content ++ cut.spaces ++ cut.terminator) -
      utf8Length cut.terminator) (cut.content ++ cut.spaces ++ cut.terminator) =
        some (cut.content ++ cut.spaces) := by
    rw [utf8Length_append, Nat.add_sub_cancel]
    exact slice?_append [] _ _
  rw [ofRest?, terminatorLength_eq h, hslice, Option.map_some, h.dropWhile_eq, ← h.whole_eq]
  refine congrArg some ?_
  have hlength : start + utf8Length (cut.lead ++ cut.content ++ cut.spaces ++ cut.terminator) =
      start + utf8Length cut.lead + utf8Length cut.content + utf8Length cut.spaces +
        utf8Length cut.terminator := by
    simp only [utf8Length_append, Nat.add_assoc]
  rw [hlength, utf8Length_append, ← Nat.add_assoc]
  by_cases hsevered : cut.isSevered = true
  · obtain ⟨hspaces, hterminator⟩ := Trimmed.isSevered_iff.1 hsevered
    have := utf8Length_pos hspaces
    have := utf8Length_pos hterminator
    rw [Trimmed.range_of_isSevered hsevered, if_neg (by omega), if_pos (by omega)]
  · rw [Trimmed.range_of_not_isSevered hsevered, Trimmed.kept]
    by_cases hterminator : cut.terminator = []
    · rw [hterminator, List.append_nil]
      exact if_pos rfl
    · have hspaces := (Trimmed.not_isSevered_iff.1 hsevered).resolve_right hterminator
      have := utf8Length_pos hterminator
      rw [hspaces, utf8Length_nil, if_neg (by omega), if_neg (by omega), utf8Length_append,
        Nat.add_zero, Nat.add_assoc _ (utf8Length cut.content)]

/-- Between two boundaries nothing is in the way of trimming. -/
theorem trim?_eq (hs : Stands source start body stop) (h : cut.Cuts body) :
    trim? source start stop = some (cut.range start) := by
  have hrest : Stands source (start + utf8Length cut.lead)
      (cut.content ++ cut.spaces ++ cut.terminator) stop := by
    rw [← h.lead_append] at hs
    exact hs.append.2
  rw [trim?, Scanner.slice?_stands hs, Option.bind_some, leadStop?_eq h, Option.bind_some,
    Scanner.slice?_stands hrest, Option.bind_some]
  obtain ⟨_, _, -, -, rfl⟩ := hs
  exact ofRest?_eq h start

theorem fits_range (hs : Stands source start cut.whole stop) :
    (cut.range start).Fits source start stop cut := by
  by_cases hsevered : cut.isSevered = true
  · rw [Trimmed.whole, List.append_assoc, List.append_assoc] at hs
    obtain ⟨hlead, hrest⟩ := hs.append
    obtain ⟨hcontent, hrest⟩ := hrest.append
    obtain ⟨hspaces, hterminator⟩ := hrest.append
    have hstop := utf8Length_of_slice? (Scanner.slice?_stands hterminator)
    rw [Trimmed.range_of_isSevered hsevered]
    refine ⟨hlead, fun h => ?_, fun first last h => ?_⟩
    · cases h
    · cases h
      exact ⟨hcontent, hspaces, hstop ▸ hterminator, hstop⟩
  · rw [Trimmed.whole_of_not_isSevered hsevered] at hs
    obtain ⟨hlead, hrest⟩ := hs.append
    rw [Trimmed.range_of_not_isSevered hsevered]
    refine ⟨hlead, fun _ => hrest.append, fun _ _ h => ?_⟩
    cases h

end

end KeptRange

/-! ## Bodies that are read in place -/

section

variable {o : ParseOptions} {source body : List Char} {blocks : List Block} {block : Block}
  {place : Location} {depth d start stop : Nat} {kept : KeptRange} {cut : Trimmed} {t : Tag}

theorem ParseOptions.keptRange?_eq (hs : Stands source start body stop) :
    o.keptRange? source start stop = some ((o.trimming body).range start) := by
  rw [keptRange?, trimming]
  split
  · exact KeptRange.trim?_eq hs (Trimmed.cuts_ofBody body)
  · obtain ⟨_, _, -, -, rfl⟩ := hs
    have hsevered : ¬ (Trimmed.untouched body).isSevered = true := Bool.false_ne_true
    rw [Trimmed.range_of_not_isSevered hsevered, Trimmed.kept_untouched, Trimmed.lead_untouched,
      utf8Length_nil, Nat.add_zero]

/-- The raw body is what is kept, and a terminator that was cut off is one more text. -/
theorem readBody?_eq (hkept : o.keptRange? source start stop = some kept)
    (hf : kept.Fits source start stop cut) (hd : depth < o.maxDepth) (place : Location) :
    readBody? o source depth place start stop =
      some ((parseRange o source (depth + 1) kept.start kept.stop).map fun body =>
        (String.ofList cut.kept, body ++ kept.terminator.toList.map fun r =>
          .text (Location.ofOffset source r.1) (String.ofList cut.terminator))) := by
  rw [readBody?, if_neg (by omega), hkept, Option.bind_some]
  cases parseRange o source (depth + 1) kept.start kept.stop with
  | error e => rfl
  | ok body =>
    dsimp only
    cases hterminator : kept.terminator with
    | none =>
      rw [Scanner.slice?_stands (hf.joined hterminator).1]
      simp [Except.map, Trimmed.kept]
    | some r =>
      obtain ⟨hcontent, -, hlast, -⟩ := hf.severed r.1 r.2 hterminator
      rw [Scanner.slice?_stands hcontent, Option.bind_some]
      dsimp only
      rw [Scanner.slice?_stands hlast]
      rfl

/-- A terminator that was cut off, as one more text. -/
theorem Trimmed.textBlock_tail (cut : Trimmed) (source : List Char) (start : Nat) :
    textBlock (Location.ofOffset source (start + utf8Length cut.beforeTail)) cut.tail =
      (cut.range start).terminator.toList.map fun r =>
        .text (Location.ofOffset source r.1) (String.ofList cut.terminator) := by
  by_cases hsevered : cut.isSevered = true
  · simp [tail, range, hsevered, textBlock, (isSevered_iff.1 hsevered).2]
  · simp [tail, range, hsevered, textBlock]

/-- Every container of a template was read from a construct of the source, and its body by
`readBody?` from the range of the body, as many levels deep as containers are around it. -/
theorem readBody?_of_nested (h : parse o (String.ofList source) = .ok blocks)
    (hn : Nested blocks d block) (ht : block.tag? = some t) (hc : t.isContainer = true) :
    ∃ start stop s, nextExtent source start stop = .ok (some s) ∧ s.Within source start stop ∧
      s.kind = .tag t ∧ block.location = Location.ofOffset source s.start ∧
      readBody? o source d block.location s.bodyStart s.bodyStop =
        some (.ok (block.rawBody, block.body)) := by
  rw [parse, String.toList_ofList] at h
  obtain ⟨k, header, outer, text, limit, body, hs, hk, hkind, -, hd, hb, rfl⟩ :=
    (parses_of_parseBlocks h).construct_of_nested (standsAt_all source) hn ht hc
  rw [Nat.zero_add] at hd hb
  have hbody := hs.body hk
  have hwhole : StandsAt source (k.bodyLocation outer) (o.trimming k.body).whole
      ((k.bodyLocation outer).after k.body).offset := by
    rwa [o.whole_trimming]
  have hmain : parseRange o source (d + 1) _ _ = _ := parseRange_eq hwhole.main
  have htail := hwhole.terminator.ofOffset_eq
  simp only [Location.offset_after, hb.parseBlocks] at hmain htail
  have hnext : nextExtent source outer.offset limit = .ok (some (k.placed outer.offset)) := by
    rw [nextExtent_eq hs, hk]
    rfl
  refine ⟨_, limit, _, hnext, within_of_nextExtent hs.stands hnext, hkind, ?_, ?_⟩
  · rw [(Construct.next_eq hk).1, List.append_assoc] at hs
    rw [Header.location_block, Construct.start_placed]
    exact hs.right.ofOffset_eq.symm
  · rw [Construct.bodyStart_placed, Construct.bodyStop_placed,
      readBody?_eq (ParseOptions.keptRange?_eq hbody.stands)
        (KeptRange.fits_range hwhole.stands) hd,
      ← Trimmed.textBlock_tail, htail, Header.rawBody_block, Header.body_block]
    dsimp only [Trimmed.range]
    rw [hmain]
    rfl

/-- Trimming drops what the rules say and nothing else. The text of a range is cut into lead,
content, spaces and terminator in the one way that the rules allow, and what is kept of the range
encloses content and terminator, where they stand. The terminator has a range of its own if, and
only if, spaces stand in front of it and it is not empty. The raw body of the range is content and
terminator; its blocks are read from the range that is kept, with the terminator as one more text if
it has a range of its own.

Every container of a template has its raw body and its blocks from such a range. -/
theorem trim?_fits_cuts (source : List Char) :
    (∀ start stop, IsRange source start stop →
      ∃ kept cut, KeptRange.trim? source start stop = some kept ∧
        cut.Cuts (slice start stop source) ∧
        (∀ other : Trimmed, other.Cuts (slice start stop source) → other = cut) ∧
        kept.Fits source start stop cut ∧
        (kept.terminator.isSome = true ↔ cut.spaces ≠ [] ∧ cut.terminator ≠ []) ∧
        kept.start + utf8Length cut.terminator ≤ stop ∧
        ∀ o depth place, o.trimBodies = true → depth < o.maxDepth →
          readBody? o source depth place start stop =
            some ((parseRange o source (depth + 1) kept.start kept.stop).map fun body =>
              (String.ofList (cut.content ++ cut.terminator),
                body ++ kept.terminator.toList.map fun r =>
                  .text (Location.ofOffset source r.1) (String.ofList cut.terminator)))) ∧
      ∀ o blocks d block t, parse o (String.ofList source) = .ok blocks →
        Nested blocks d block → block.tag? = some t → t.isContainer = true →
        ∃ start stop s, nextExtent source start stop = .ok (some s) ∧ s.Within source start stop ∧
          s.kind = .tag t ∧ block.location = Location.ofOffset source s.start ∧
          readBody? o source d block.location s.bodyStart s.bodyStop =
            some (.ok (block.rawBody, block.body)) := by
  refine ⟨fun start stop hr => ?_, fun o blocks d block t => readBody?_of_nested⟩
  have hs := hr.stands
  have hcuts := Trimmed.cuts_ofBody (slice start stop source)
  have hkept := KeptRange.trim?_eq hs hcuts
  have hfits := KeptRange.fits_range (hcuts.whole_eq.symm ▸ hs)
  refine ⟨_, _, hkept, hcuts, fun other h => h.eq_ofBody, hfits, ?_, ?_,
    fun o depth place ho hd => ?_⟩
  · rw [← Trimmed.isSevered_iff, Trimmed.isSome_terminator_range]
  · obtain ⟨_, _, -, -, hstop⟩ := hs
    rw [← hcuts.whole_eq] at hstop
    simp only [utf8Length_append] at hstop
    show start + utf8Length _ + utf8Length _ ≤ stop
    omega
  · refine readBody?_eq ?_ hfits hd place
    rw [ParseOptions.keptRange?, if_pos ho, hkept]

end

/-- A static block with a body of spaces and line breaks, behind a character of two bytes. -/
def blanks : List Char := "é<static> \n \r\n</static>".toList

/-- The pieces of the body of `blanks`. -/
def blanksCut : Trimmed := ⟨[' ', '\n'], [], [' '], ['\r', '\n']⟩

/-- The static block of `blanks`. -/
def blanksStatic : Block := .static ⟨1, 2, 2⟩ "\r\n" [.text ⟨2, 2, 13⟩ "\r\n"]

theorem trim?_blanks :
    IsRange blanks 10 15 ∧
      KeptRange.trim? blanks 10 15 = some ⟨12, 12, some (13, 15)⟩ ∧
      blanksCut.Cuts (slice 10 15 blanks) ∧
      (∀ other : Trimmed, other.Cuts (slice 10 15 blanks) → other = blanksCut) ∧
      KeptRange.Fits ⟨12, 12, some (13, 15)⟩ blanks 10 15 blanksCut ∧
      readBody? ⟨64, true⟩ blanks 0 ⟨1, 2, 2⟩ 10 15 =
        some (.ok (blanksStatic.rawBody, blanksStatic.body)) ∧
      parse ⟨64, true⟩ (String.ofList blanks) = .ok [.text ⟨1, 1, 0⟩ "é", blanksStatic] ∧
      ∃ start stop s, nextExtent blanks start stop = .ok (some s) ∧ s.Within blanks start stop ∧
        s.kind = .tag .static ∧ blanksStatic.location = Location.ofOffset blanks s.start ∧
        readBody? ⟨64, true⟩ blanks 0 blanksStatic.location s.bodyStart s.bodyStop =
          some (.ok (blanksStatic.rawBody, blanksStatic.body)) := by
  have hr : IsRange blanks 10 15 :=
    ⟨isBoundary_iff.1 (by decide), isBoundary_iff.1 (by decide), by decide⟩
  have hblocks : parse ⟨64, true⟩ (String.ofList blanks) =
      .ok [.text ⟨1, 1, 0⟩ "é", blanksStatic] := eq_ok_of_toOption (by decide +kernel)
  have hmain : parseRange ⟨64, true⟩ blanks 1 12 12 = .ok [] :=
    eq_ok_of_toOption (by decide +kernel)
  obtain ⟨hranges, hcontainers⟩ := trim?_fits_cuts blanks
  obtain ⟨kept, cut, hkept, hcuts, hunique, hfits, -, -, hread⟩ := hranges 10 15 hr
  obtain rfl : ⟨12, 12, some (13, 15)⟩ = kept :=
    Option.some.inj (Eq.trans (by decide +kernel) hkept)
  obtain rfl : blanksCut = cut := Eq.trans (by decide +kernel) hcuts.eq_ofBody.symm
  have hbody := hread ⟨64, true⟩ 0 ⟨1, 2, 2⟩ rfl (by decide)
  rw [hmain] at hbody
  refine ⟨hr, hkept, hcuts, hunique, hfits, hbody.trans ?_, hblocks, ?_⟩
  · rfl
  · exact hcontainers _ _ 0 _ .static hblocks (.here (by simp)) rfl rfl

end Stencil.Markup
