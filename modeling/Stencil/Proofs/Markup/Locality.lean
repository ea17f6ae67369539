import Stencil.Proofs.Markup.Moving
import Stencil.Proofs.Markup.Range

/-!
# Reading sees its range only

What is read in a range of a source is what is read in the text of the range alone
(`parseRange_local`): the same constructs at the same offsets, shifted by the begin of the range, and
the same blocks, or the same error, with all locations moved along. So a body is read as if its
container stood nowhere, with as much of the limit on the depth as is left there (`Parses.nested`).
-/

namespace Stencil.Markup

open Stencil.Text

/-! ## Blocks at another place -/

section

variable {f : Location → Location} {here there : Location} {cs : List Char} {o : ParseOptions}
  {depth : Nat}

/-- A block at another place, if what trimming leaves of its body is read alike. -/
theorem readBlock_relocate {k : Construct} (hn : Construct.next here cs = .ok (some k))
    (hf : Carries f here there cs)
    (hbody : ∀ {here there : Location}, Carries f here there (o.trimming k.body).main →
      parseBlocks o (depth + 1) there (o.trimming k.body).main =
        relocate f ((parseBlocks o (depth + 1) here (o.trimming k.body).main).map
          (mapLocations f))) :
    readBlock o depth there k =
      relocate f ((readBlock o depth here k).map (Block.mapLocation f)) := by
  have hin := hf.body hn
  have hmain := hin.of_isPrefix (o.whole_trimming k.body ▸ Trimmed.lead_append_main_isPrefix _)
  have htail := hin _ (o.whole_trimming k.body ▸ Trimmed.beforeTail_isPrefix _)
  rw [(Construct.next_eq hn).1, List.append_assoc] at hf
  have hplace : f (k.location here) = k.location there := hf.right.begin
  unfold readBlock
  split
  · rw [← hplace]
    rfl
  · rw [← hplace, readInclusion_relocate]
  · rename_i t _ _
    rw [← hplace, readHeader_relocate]
    cases readHeader k t (k.location here) with
    | error e => rfl
    | ok header =>
      rw [relocate_ok]
      dsimp only
      split
      · rfl
      · rw [hbody hmain.right]
        cases parseBlocks o (depth + 1) ((k.bodyLocation here).after (o.trimming k.body).lead)
          (o.trimming k.body).main with
        | error e => rfl
        | ok body => simp [Except.map, htail]

/-- A text has the same blocks at any place, or the same error, with all locations moved along. -/
theorem parseBlocks_relocate (hf : Carries f here there cs) :
    parseBlocks o depth there cs =
      relocate f ((parseBlocks o depth here cs).map (mapLocations f)) := by
  -- body and rest of a construct are shorter than the text
  induction hl : cs.length using Nat.strongRecOn generalizing depth here there cs with
  | ind n ih =>
    subst hl
    have hnext := Construct.next_relocate hf
    cases hn : Construct.next here cs with
    | error e =>
      rw [hn, relocate_error] at hnext
      rw [parseBlocks_error hn, parseBlocks_error hnext]
      rfl
    | ok found =>
      rw [hn, relocate_ok] at hnext
      cases found with
      | none =>
        rw [parseBlocks_none hn, parseBlocks_none hnext]
        simp [Except.map, hf.begin]
      | some k =>
        have hblock : readBlock o depth there k = _ :=
          readBlock_relocate hn hf fun hmain => ih _ (Construct.length_main_lt o hn) hmain rfl
        have hbegin := hf.begin
        rw [(Construct.next_eq hn).1, List.append_assoc] at hf
        have hrest : parseBlocks o depth (k.afterLocation there) k.after =
            relocate f ((parseBlocks o depth (k.afterLocation here) k.after).map
              (mapLocations f)) :=
          ih _ (Construct.length_after_lt hn) hf.right.right rfl
        rw [parseBlocks_step hn, parseBlocks_step hnext, hblock, hrest]
        cases readBlock o depth here k with
        | error e => rfl
        | ok block =>
          cases parseBlocks o depth (k.afterLocation here) k.after with
          | error e => rfl
          | ok rest => simp [Except.map, hbegin, mapLocations]

end

/-! ## Bodies -/

/-- The block stands among the blocks or in their bodies, inside `depth` of these. -/
inductive Nested : List Block → Nat → Block → Prop
  | here {blocks : List Block} {block : Block} (h : block ∈ blocks) : Nested blocks 0 block
  | inside {blocks : List Block} {outer block : Block} {depth : Nat} (ho : outer ∈ blocks)
    (h : Nested outer.body depth block) : Nested blocks (depth + 1) block

section

variable {blocks others : List Block} {block outer : Block} {depth : Nat}

theorem nested_append :
    Nested (blocks ++ others) depth block ↔
      Nested blocks depth block ∨ Nested others depth block := by
  constructor
  · rintro (hm | ⟨hm, h⟩)
    · exact (List.mem_append.1 hm).imp .here .here
    · exact (List.mem_append.1 hm).imp (.inside · h) (.inside · h)
  · rintro ((hm | ⟨hm, h⟩) | (hm | ⟨hm, h⟩))
    · exact .here (List.mem_append_left _ hm)
    · exact .inside (List.mem_append_left _ hm) h
    · exact .here (List.mem_append_right _ hm)
    · exact .inside (List.mem_append_right _ hm) h

theorem nested_cons :
    Nested (outer :: others) depth block ↔
      (depth = 0 ∧ block = outer) ∨ (∃ d, depth = d + 1 ∧ Nested outer.body d block) ∨
        Nested others depth block := by
  constructor
  · rintro (hm | ⟨hm, h⟩)
    · exact (List.mem_cons.1 hm).elim (fun h => .inl ⟨rfl, h⟩) fun h => .inr (.inr (.here h))
    · rcases List.mem_cons.1 hm with rfl | hm
      · exact .inr (.inl ⟨_, rfl, h⟩)
      · exact .inr (.inr (.inside hm h))
  · rintro (⟨rfl, rfl⟩ | ⟨d, rfl, h⟩ | (hm | ⟨hm, h⟩))
    · exact .here List.mem_cons_self
    · exact .inside List.mem_cons_self h
    · exact .here (List.mem_cons_of_mem _ hm)
    · exact .inside (List.mem_cons_of_mem _ hm) h

theorem not_nested_nil : ¬ Nested [] depth block := by
  rintro (hm | ⟨hm, -⟩) <;> cases hm

/-- Texts are no tags and have no bodies. -/
theorem Nested.of_textBlock {l : Location} {cs : List Char}
    (h : Nested (textBlock l cs) depth block) : block.tag? = none := by
  unfold textBlock at h
  split at h
  · exact absurd h not_nested_nil
  · obtain ⟨-, rfl⟩ | ⟨d, -, h⟩ | h := nested_cons.1 h
    · rfl
    · exact absurd h not_nested_nil
    · exact absurd h not_nested_nil

end

section

variable {o : ParseOptions} {depth d stop : Nat} {here : Location} {cs source : List Char}
  {blocks : List Block} {block : Block} {t : Tag}

/-- Containers are not nested deeper than the limit. -/
theorem Parses.nesting_le (h : Parses o depth here cs blocks) (hd : depth ≤ o.maxDepth) :
    depth + nesting blocks ≤ o.maxDepth := by
  induction h with
  | plain => simpa using hd
  | inline _ _ _ ih =>
    have := ih hd
    simpa [nesting, blockNesting] using this
  | inclusion _ _ hb _ ih =>
    have := ih hd
    obtain ⟨resource, rfl⟩ := readInclusion_inv hb
    simpa [nesting, blockNesting] using this
  | container _ _ _ _ hd' _ _ ihb ih =>
    have := ih hd
    have := ihb hd'
    simp only [nesting_append, nesting_textBlock, nesting, blockNesting_block]
    omega

/-- Every container among the blocks was read from a construct of the source: its header, and what
is left of its body by trimming, as many levels deeper as containers are around it. The construct is
the first one of a range. -/
theorem Parses.construct_of_nested (h : Parses o depth here cs blocks)
    (hs : StandsAt source here cs stop) (hn : Nested blocks d block) (ht : block.tag? = some t)
    (hc : t.isContainer = true) :
    ∃ k header outer text limit body, StandsAt source outer text limit ∧
      Construct.next outer text = .ok (some k) ∧ k.kind = .tag t ∧
        readHeader k t (k.location outer) = .ok header ∧ depth + (d + 1) ≤ o.maxDepth ∧
        Parses o (depth + (d + 1)) ((k.bodyLocation outer).after (o.trimming k.body).lead)
          (o.trimming k.body).main body ∧
        block = header.block (k.location outer) k.attributes
          (String.ofList (o.trimming k.body).kept)
          (body ++ textBlock ((k.bodyLocation outer).after (o.trimming k.body).beforeTail)
            (o.trimming k.body).tail) := by
  have notext {l : Location} {cs : List Char} {d : Nat} (h : Nested (textBlock l cs) d block) :
      False := by
    cases ht.symm.trans h.of_textBlock
  induction h generalizing d stop with
  | plain => exact (notext hn).elim
  | inline hk _ _ ih =>
    rw [(Construct.next_eq hk).1, List.append_assoc] at hs
    obtain hn | hn := nested_append.1 hn
    · exact (notext hn).elim
    · obtain ⟨-, rfl⟩ | ⟨d, -, hn⟩ | hn := nested_cons.1 hn
      · cases ht
      · exact (not_nested_nil hn).elim
      · exact ih hs.right.right hn
  | inclusion hk _ hb _ ih =>
    obtain ⟨resource, rfl⟩ := readInclusion_inv hb
    rw [(Construct.next_eq hk).1, List.append_assoc] at hs
    obtain hn | hn := nested_append.1 hn
    · exact (notext hn).elim
    · obtain ⟨-, rfl⟩ | ⟨d, -, hn⟩ | hn := nested_cons.1 hn
      · cases ht
        cases hc
      · exact (not_nested_nil hn).elim
      · exact ih hs.right.right hn
  | @container depth here _ k u header body rest hk hkind hu hh hd hb _ ihb ih =>
    obtain hn | hn := nested_append.1 hn
    · exact (notext hn).elim
    · obtain ⟨rfl, rfl⟩ | ⟨d, rfl, hin⟩ | hn := nested_cons.1 hn
      · obtain rfl := Option.some.inj ((Header.tag?_block hh hu _ _ _).symm.trans ht)
        exact ⟨k, header, here, _, stop, body, hs, hk, hkind, hh, hd, hb, rfl⟩
      · rw [Header.body_block] at hin
        have hdepth : depth + (d + 1 + 1) = depth + 1 + (d + 1) := by omega
        rw [hdepth]
        obtain hin | hin := nested_append.1 hin
        · have hwhole := hs.body hk
          rw [← o.whole_trimming k.body] at hwhole
          exact ihb hwhole.main hin
        · exact (notext hin).elim
      · rw [(Construct.next_eq hk).1, List.append_assoc] at hs
        exact ih hs.right.right hn

/-- What a container was read from, without the range around its construct. -/
theorem Parses.container_of_nested (h : Parses o depth here cs blocks)
    (hs : StandsAt source here cs stop) (hn : Nested blocks d block) (ht : block.tag? = some t)
    (hc : t.isContainer = true) :
    ∃ k u header outer last body, readHeader k u (k.location outer) = .ok header ∧
      StandsAt source (k.bodyLocation outer) k.body last ∧ depth + (d + 1) ≤ o.maxDepth ∧
        Parses o (depth + (d + 1)) ((k.bodyLocation outer).after (o.trimming k.body).lead)
          (o.trimming k.body).main body ∧
        block = header.block (k.location outer) k.attributes
          (String.ofList (o.trimming k.body).kept)
          (body ++ textBlock ((k.bodyLocation outer).after (o.trimming k.body).beforeTail)
            (o.trimming k.body).tail) := by
  obtain ⟨k, header, outer, text, limit, body, hs, hk, -, hh, hd, hb, rfl⟩ :=
    h.construct_of_nested hs hn ht hc
  exact ⟨k, t, header, outer, _, body, hh, hs.body hk, hd, hb, rfl⟩

/-- Where bodies are not trimmed, the body of every container is what its raw body is read as at its
place, as many levels deeper as containers are around it. -/
theorem Parses.nested (ho : o.trimBodies = false) (h : Parses o depth here cs blocks)
    (hs : StandsAt source here cs stop) (hn : Nested blocks d block) (ht : block.tag? = some t)
    (hc : t.isContainer = true) :
    ∃ there last, StandsAt source there block.rawBody.toList last ∧
      depth + (d + 1) ≤ o.maxDepth ∧
        Parses o (depth + (d + 1)) there block.rawBody.toList block.body := by
  obtain ⟨k, u, header, outer, last, body, -, hbody, hd, hb, rfl⟩ :=
    h.container_of_nested hs hn ht hc
  refine ⟨k.bodyLocation outer, last, ?_, hd, ?_⟩
  · simpa [ParseOptions.trimming_of_not_trimBodies ho] using hbody
  · simpa [ParseOptions.trimming_of_not_trimBodies ho, textBlock] using hb

/-- From the text alone to its place in the source. -/
theorem StandsAt.carries (hs : StandsAt source here cs stop) :
    Carries (fun l => Location.ofOffset source (here.offset + l.offset)) Location.start here cs := by
  rintro x ⟨z, rfl⟩
  have hx := hs.right.ofOffset_eq
  rw [Location.offset_after] at hx
  dsimp only
  rw [Location.offset_after, Location.start, Nat.zero_add, hx]

/-- A text that is read at a place in a source is read alone as well, with as much of the limit as
is left at its depth, and as the same blocks up to their locations. -/
theorem Parses.alone {raw : String} (h : Parses o depth here raw.toList blocks)
    (hs : StandsAt source here raw.toList stop) (hd : depth ≤ o.maxDepth) :
    ∃ inner, parse { o with maxDepth := o.maxDepth - depth } raw = .ok inner ∧
      blocks = mapLocations (fun l => Location.ofOffset source (here.offset + l.offset)) inner := by
  have hnesting := h.nesting_le hd
  have halone : Parses { o with maxDepth := o.maxDepth - depth } 0 Location.start raw.toList _ :=
    h.move rfl (by dsimp only; omega) (carries_takeBytes here Location.start raw.toList)
  have hinner := halone.nesting_le (Nat.zero_le _)
  dsimp only at hinner
  have hback : Parses o depth here raw.toList _ := halone.move rfl (by omega) hs.carries
  exact ⟨_, halone.parseBlocks, Except.ok.inj (h.parseBlocks.symm.trans hback.parseBlocks)⟩

end

/-! ## Ranges -/

/-- Of two texts that a text begins with, the longer one has more bytes. -/
theorem utf8Length_lt_iff {x y cs : List Char} (hx : x <+: cs) (hy : y <+: cs) :
    utf8Length x < utf8Length y ↔ x.length < y.length := by
  constructor
  · intro h
    obtain ⟨z, rfl⟩ := isPrefix_of_utf8Length_le hx hy (Nat.le_of_lt h)
    have hz : z ≠ [] := by
      rintro rfl
      rw [List.append_nil] at h
      exact Nat.lt_irrefl _ h
    simpa using List.length_pos_iff.2 hz
  · intro h
    obtain ⟨z, rfl⟩ := List.prefix_of_prefix_length_le hx hy (Nat.le_of_lt h)
    have hz : z ≠ [] := by
      rintro rfl
      rw [List.append_nil] at h
      exact Nat.lt_irrefl _ h
    rw [utf8Length_append]
    have := utf8Length_pos hz
    omega

/-- A byte offset of a source at which a character begins, or its end. -/
def IsBoundary (source : List Char) (n : Nat) : Prop :=
  ∃ before, before <+: source ∧ utf8Length before = n

/-- The construct in a source in which more bytes stand before it. -/
def Extent.shift (n : Nat) (s : Extent) : Extent :=
  { s with
    start := n + s.start
    bodyStart := n + s.bodyStart
    bodyStop := n + s.bodyStop
    stop := n + s.stop }

theorem Construct.placed_eq_shift (k : Construct) (n : Nat) :
    k.placed n = (k.placed 0).shift n := by
  simp [placed, Extent.shift, Nat.add_assoc]

section

variable {source : List Char} {start stop : Nat}

theorem Stands.isBoundary {cs : List Char} (h : Stands source start cs stop) :
    IsBoundary source start ∧ IsBoundary source stop := by
  obtain ⟨before, after, rfl, rfl, rfl⟩ := h
  exact ⟨⟨before, ⟨cs ++ after, (List.append_assoc _ _ _).symm⟩, rfl⟩,
    before ++ cs, List.prefix_append _ _, utf8Length_append before cs⟩

/-- Between two boundaries stands the slice between them. -/
theorem stands_slice (hstart : IsBoundary source start) (hstop : IsBoundary source stop)
    (hle : start ≤ stop) : Stands source start (slice start stop source) stop := by
  obtain ⟨before, hbefore, rfl⟩ := hstart
  obtain ⟨upto, hupto, rfl⟩ := hstop
  obtain ⟨mid, rfl⟩ : before <+: upto := isPrefix_of_utf8Length_le hbefore hupto hle
  obtain ⟨rest, rfl⟩ := hupto
  have hs : Stands (before ++ mid ++ rest) (utf8Length before) mid (utf8Length (before ++ mid)) :=
    ⟨before, rest, rfl, rfl, (utf8Length_append before mid).symm⟩
  rwa [hs.slice_eq]

/-- A template is read as the range from its first byte to its last. -/
theorem parse_eq_parseRange (o : ParseOptions) (template : String) :
    parse o template =
      parseRange o template.toList 0 0 (utf8Length template.toList) :=
  (parseRange_eq (standsAt_all template.toList)).symm

/-- Reading a range of a source is reading the text of the range alone: the first construct is the
same, with its offsets shifted, and so are the blocks or the error, at any depth, with all locations
moved along. Where bodies are not trimmed, the body of every container, however deep, is what its
raw body is read as on its own, with as much of the limit as is left there. -/
theorem parseRange_local (hstart : IsBoundary source start) (hstop : IsBoundary source stop)
    (hle : start ≤ stop) (o : ParseOptions) (depth : Nat) :
    let move l := Location.ofOffset source (start + l.offset)
    let text := slice start stop source
    nextExtent source start stop =
        relocate move ((nextExtent text 0 (stop - start)).map (Option.map (·.shift start))) ∧
      parseRange o source depth start stop =
        relocate move ((parseRange o text depth 0 (stop - start)).map (mapLocations move)) ∧
      ∀ blocks d block t, o.trimBodies = false →
        parseRange o source depth start stop = .ok blocks → Nested blocks d block →
        block.tag? = some t → t.isContainer = true →
        depth + (d + 1) ≤ o.maxDepth ∧ ∃ first last inner,
          Stands source first block.rawBody.toList last ∧
          parse { o with maxDepth := o.maxDepth - (depth + (d + 1)) } block.rawBody = .ok inner ∧
          block.body =
            mapLocations (fun l => Location.ofOffset source (first + l.offset)) inner := by
  intro move text
  have hs : StandsAt source (Location.ofOffset source start) text stop :=
    (stands_slice hstart hstop hle).standsAt
  have hoffset : (Location.ofOffset source start).offset = start :=
    (stands_slice hstart hstop hle).offset_ofOffset
  have halone : StandsAt text Location.start text (stop - start) := by
    have hstop := hs.stop_eq
    rw [hoffset] at hstop
    rw [show stop - start = utf8Length text by omega]
    exact standsAt_all text
  have hmove : Carries move Location.start (Location.ofOffset source start) text := by
    have := hs.carries
    rwa [hoffset] at this
  have hrange : parseRange o source depth _ stop = _ := parseRange_eq hs
  rw [hoffset] at hrange
  refine ⟨?_, ?_, fun blocks d block t ho hblocks hn ht hc => ?_⟩
  · have hnext := nextExtent_eq hs
    have hnext' : nextExtent text 0 (stop - start) = _ := nextExtent_eq halone
    rw [hoffset, Construct.next_relocate hmove] at hnext
    rw [hnext, hnext']
    cases Construct.next Location.start text with
    | error e => rfl
    | ok found =>
      cases found with
      | none => rfl
      | some k => exact congrArg (Except.ok ∘ some) (k.placed_eq_shift start)
  · have hrange' : parseRange o text depth 0 (stop - start) = _ := parseRange_eq halone
    rw [hrange, hrange', parseBlocks_relocate hmove]
  · rw [hrange] at hblocks
    obtain ⟨there, last, hthere, hdepth, hp⟩ :=
      (parses_of_parseBlocks hblocks).nested ho hs hn ht hc
    obtain ⟨inner, hinner, hbody⟩ := hp.alone hthere hdepth
    exact ⟨hdepth, there.offset, last, inner, hthere.stands, hinner, hbody⟩

end

/-- A condition with a static block in it, between a character of two bytes and a closing tag that
belongs to nothing. -/
def sheltered : List Char := "é<if cond:'x'>\n<static>b</static></if></if>".toList

/-- The static block of `sheltered`. -/
def shelteredStatic : Block := .static ⟨2, 1, 16⟩ "b" [.text ⟨2, 9, 24⟩ "b"]

/-- The blocks of `sheltered` without what stands around the condition. -/
def shelteredBlocks : List Block :=
  [.cond ⟨1, 2, 2⟩ "x" [("cond", "x")] "\n<static>b</static>"
    [.text ⟨1, 15, 15⟩ "\n", shelteredStatic]]

theorem parseRange_sheltered :
    IsBoundary sheltered 2 ∧ IsBoundary sheltered 39 ∧
      parseRange {} sheltered 0 2 39 = .ok shelteredBlocks ∧
      parseRange {} sheltered 0 2 39 =
        relocate (fun l => Location.ofOffset sheltered (2 + l.offset))
          ((parseRange {} (slice 2 39 sheltered) 0 0 37).map
            (mapLocations fun l => Location.ofOffset sheltered (2 + l.offset))) ∧
      Nested shelteredBlocks 1 shelteredStatic ∧
      ∃ first last inner, Stands sheltered first ['b'] last ∧
        parse { maxDepth := 62 } "b" = .ok inner ∧
        shelteredStatic.body =
          mapLocations (fun l => Location.ofOffset sheltered (first + l.offset)) inner := by
  have hstart : IsBoundary sheltered 2 := ⟨['é'], ⟨_, rfl⟩, rfl⟩
  have hstop : IsBoundary sheltered 39 :=
    ⟨"é<if cond:'x'>\n<static>b</static></if>".toList, ⟨"</if>".toList, by decide⟩, by decide⟩
  have hblocks : parseRange {} sheltered 0 2 39 = .ok shelteredBlocks :=
    eq_ok_of_toOption (by decide +kernel)
  have hnested : Nested shelteredBlocks 1 shelteredStatic :=
    .inside List.mem_cons_self (.here (List.mem_cons_of_mem _ List.mem_cons_self))
  obtain ⟨-, hmoved, hbodies⟩ := parseRange_local hstart hstop (by decide) {} 0
  obtain ⟨-, hbody⟩ := hbodies _ 1 _ .static rfl hblocks hnested rfl rfl
  exact ⟨hstart, hstop, hblocks, hmoved, hnested, hbody⟩

end Stencil.Markup
