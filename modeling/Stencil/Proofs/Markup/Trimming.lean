import Stencil.Proofs.Markup.Appending

/-!
# Raw bodies of trimmed containers

Where bodies are trimmed, the raw body of a container is what trimming keeps, while its blocks are
read from the main part: if spaces were dropped in front of the final line terminator, this is the
content alone, and the terminator becomes one more text. Reading the raw body gives the same blocks
up to their places and with neighbouring texts joined (`rawBody_parsed`). It does so unless the
content ends in the name of an opening tag (`Trimmed.Conceals`): in the raw body the terminator ends
the name, so that a tag begins which the blocks of the container know nothing of, and which nothing
ends.
-/

namespace Stencil.Markup

open Stencil.Text

/-! ## Where blocks begin -/

/-- The functions are the same for the places of all characters of the text `cs` at `here`. -/
def AgreeIn (f g : Location → Location) (here : Location) (cs : List Char) : Prop :=
  ∀ x c, x ++ [c] <+: cs → f (here.after x) = g (here.after x)

section

variable {f g : Location → Location} {here : Location} {cs x y : List Char}

theorem AgreeIn.of_isPrefix (h : AgreeIn f g here cs) (hx : x <+: cs) : AgreeIn f g here x :=
  fun y c hy => h y c (hy.trans hx)

theorem AgreeIn.left (h : AgreeIn f g here (x ++ y)) : AgreeIn f g here x :=
  h.of_isPrefix (List.prefix_append x y)

theorem AgreeIn.right (h : AgreeIn f g here (x ++ y)) : AgreeIn f g (here.after x) y := by
  intro z c hz
  rw [← Location.after_append]
  refine h (x ++ z) c ?_
  rw [List.append_assoc]
  exact (List.prefix_append_right_inj x).2 hz

theorem AgreeIn.begin (h : AgreeIn f g here cs) (hne : cs ≠ []) : f here = g here := by
  obtain ⟨c, cs, rfl⟩ := List.exists_cons_of_ne_nil hne
  exact h [] c ⟨cs, rfl⟩

theorem AgreeIn.textBlock_eq (h : AgreeIn f g here cs) :
    textBlock (f here) cs = textBlock (g here) cs := by
  cases cs with
  | nil => rfl
  | cons c cs => rw [h.begin (List.cons_ne_nil c cs)]

/-- The place of a construct is that of its first character. -/
theorem AgreeIn.location_eq {k : Construct} (h : AgreeIn f g here cs)
    (hn : Construct.next here cs = .ok (some k)) : f (k.location here) = g (k.location here) := by
  obtain ⟨hcs, hopening⟩ := Construct.next_eq hn
  rw [hcs, List.append_assoc] at h
  exact h.right.begin (by simp [Construct.extent, hopening])

theorem AgreeIn.after {k : Construct} (h : AgreeIn f g here cs)
    (hn : Construct.next here cs = .ok (some k)) : AgreeIn f g (k.afterLocation here) k.after := by
  rw [(Construct.next_eq hn).1, List.append_assoc] at h
  exact h.right.right

theorem AgreeIn.body {k : Construct} (h : AgreeIn f g here cs)
    (hn : Construct.next here cs = .ok (some k)) : AgreeIn f g (k.bodyLocation here) k.body := by
  rw [(Construct.next_eq hn).1, List.append_assoc] at h
  have hextent := h.right.left
  rw [Construct.extent, List.append_assoc] at hextent
  exact hextent.right.left

theorem AgreeIn.before {k : Construct} (h : AgreeIn f g here cs)
    (hn : Construct.next here cs = .ok (some k)) : AgreeIn f g here k.before := by
  rw [(Construct.next_eq hn).1, List.append_assoc] at h
  exact h.left

/-- Every block, however deep, begins at a character of the text it was read from. -/
theorem Parses.mapLocations_congr {o : ParseOptions} {depth : Nat} {blocks : List Block}
    (h : Parses o depth here cs blocks) (hfg : AgreeIn f g here cs) :
    mapLocations f blocks = mapLocations g blocks := by
  induction h with
  | plain => rw [mapLocations_textBlock, mapLocations_textBlock, hfg.textBlock_eq]
  | inline hn _ _ ih =>
    simp only [mapLocations_append, mapLocations_textBlock, mapLocations, Block.mapLocation]
    rw [(hfg.before hn).textBlock_eq, hfg.location_eq hn, ih (hfg.after hn)]
  | inclusion hn _ hb _ ih =>
    obtain ⟨resource, rfl⟩ := readInclusion_inv hb
    simp only [mapLocations_append, mapLocations_textBlock, mapLocations, Block.mapLocation]
    rw [(hfg.before hn).textBlock_eq, hfg.location_eq hn, ih (hfg.after hn)]
  | @container depth here cs k t header body rest hn _ _ _ _ _ _ ihb ih =>
    have hbody := hfg.body hn
    have hmain := hbody.of_isPrefix (o.whole_trimming k.body ▸ Trimmed.lead_append_main_isPrefix _)
    have htail : AgreeIn f g ((k.bodyLocation here).after (o.trimming k.body).beforeTail)
        (o.trimming k.body).tail := by
      have hwhole : (o.trimming k.body).beforeTail ++ (o.trimming k.body).terminator = k.body :=
        o.whole_trimming k.body
      rw [← hwhole] at hbody
      refine hbody.right.of_isPrefix ?_
      unfold Trimmed.tail
      split
      · exact List.prefix_rfl
      · exact List.nil_prefix
    simp only [mapLocations_append, mapLocations_textBlock, mapLocations, mapLocation_block]
    rw [(hfg.before hn).textBlock_eq, hfg.location_eq hn, ih (hfg.after hn), ihb hmain.right,
      htail.textBlock_eq]

end

/-! ## The pieces of a body -/

namespace Trimmed

theorem lineEnds_terminator (cs : List Char) : LineEnds (ofBody cs).terminator := by
  show LineEnds (splitTerminator (splitLead cs).2).2
  unfold splitTerminator LineEnds
  split <;> simp

/-- The name of a tag stands at the end of the content, and the terminator, which ends the name, was
cut off. -/
def Conceals (cut : Trimmed) (t : Tag) : Prop :=
  cut.isSevered = true ∧ t.opener <:+ cut.content

/-- The location in the source of a location in what is kept of a body, where the content begins at
the byte offset `first`: the spaces that were dropped stand behind the content. -/
def origin (cut : Trimmed) (source : List Char) (first : Nat) (l : Location) : Location :=
  Location.ofOffset source (first + l.offset +
    if l.offset < utf8Length cut.content then 0 else utf8Length cut.spaces)

section

variable {cut : Trimmed} {source : List Char} {here : Location} {stop : Nat}

/-- If spaces were dropped, the terminator is not in the main part. -/
theorem main_eq_content (h : cut.spaces ≠ []) :
    cut.main = cut.content ∧ cut.tail = cut.terminator := by
  unfold main tail
  split
  · exact ⟨rfl, rfl⟩
  · rename_i hsevered
    have hterminator : cut.terminator = [] := by simpa [isSevered, h] using hsevered
    exact ⟨by rw [kept, hterminator, List.append_nil], hterminator.symm⟩

theorem main_eq_kept (h : cut.spaces = []) : cut.main = cut.kept ∧ cut.tail = [] := by
  simp [main, tail, isSevered, h]

/-- Within the content nothing has been dropped. -/
theorem agreeIn_origin (cut : Trimmed) (source : List Char) (first : Nat) :
    AgreeIn (fun l => Location.ofOffset source (first + l.offset)) (cut.origin source first)
      Location.start cut.content := by
  intro x c hx
  have hoffset : (Location.start.after x).offset = utf8Length x := by
    rw [Location.offset_after, Location.start, Nat.zero_add]
  have hlt : utf8Length x < utf8Length cut.content := by
    obtain ⟨z, hz⟩ := hx
    have hc := c.utf8Size_pos
    rw [← hz]
    simp only [utf8Length_append, utf8Length_cons]
    omega
  show Location.ofOffset source (first + (Location.start.after x).offset) = _
  rw [origin, hoffset, if_pos hlt, Nat.add_zero]

/-- The terminator stands behind the spaces. -/
theorem origin_terminator
    (hs : StandsAt source here (cut.content ++ cut.spaces ++ cut.terminator) stop) :
    cut.origin source here.offset (Location.start.after cut.content) =
      here.after (cut.content ++ cut.spaces) := by
  have hoffset : (Location.start.after cut.content).offset = utf8Length cut.content := by
    rw [Location.offset_after, Location.start, Nat.zero_add]
  rw [origin, hoffset, if_neg (Nat.lt_irrefl _), Nat.add_assoc, ← utf8Length_append,
    ← Location.offset_after]
  exact hs.right.ofOffset_eq

end

end Trimmed

/-! ## Raw bodies -/

section

variable {o : ParseOptions} {depth d stop : Nat} {here : Location} {cut : Trimmed}
  {source : List Char} {body blocks : List Block} {block : Block} {t : Tag}

/-- If no spaces were dropped, what is kept was read as a whole. -/
theorem Parses.kept_of_spaces_eq_nil (hspaces : cut.spaces = [])
    (h : Parses o depth here cut.main body) (hs : StandsAt source here cut.main stop)
    (hd : depth ≤ o.maxDepth) :
    ∃ inner, parse { o with maxDepth := o.maxDepth - depth } (String.ofList cut.kept) = .ok inner ∧
      body ++ textBlock (here.after (cut.content ++ cut.spaces)) cut.tail =
        mapLocations (cut.origin source here.offset) inner := by
  obtain ⟨hmain, htail⟩ := Trimmed.main_eq_kept hspaces
  rw [hmain, ← String.toList_ofList (l := cut.kept)] at h hs
  obtain ⟨inner, hinner, rfl⟩ := h.alone hs hd
  have horigin : cut.origin source here.offset =
      fun l => Location.ofOffset source (here.offset + l.offset) := by
    funext l
    simp [Trimmed.origin, hspaces]
  exact ⟨inner, hinner, by rw [htail, horigin]; exact List.append_nil _⟩

/-- If spaces were dropped, the content was read alone. -/
theorem Parses.content_of_spaces_ne_nil (hspaces : cut.spaces ≠ [])
    (h : Parses o depth here cut.main body)
    (hs : StandsAt source here (cut.content ++ cut.spaces ++ cut.terminator) stop)
    (hd : depth ≤ o.maxDepth) :
    ∃ inner, parse { o with maxDepth := o.maxDepth - depth } (String.ofList cut.content) =
        .ok inner ∧
      body ++ textBlock (here.after (cut.content ++ cut.spaces)) cut.tail =
        mapLocations (cut.origin source here.offset)
          (inner ++ textBlock (Location.start.after cut.content) cut.terminator) := by
  obtain ⟨hmain, htail⟩ := Trimmed.main_eq_content hspaces
  rw [hmain, ← String.toList_ofList (l := cut.content)] at h
  have hcontent := hs.left.left
  rw [← String.toList_ofList (l := cut.content)] at hcontent
  obtain ⟨inner, hinner, rfl⟩ := h.alone hcontent hd
  refine ⟨inner, hinner, ?_⟩
  have hparses := parses_of_parseBlocks hinner
  rw [String.toList_ofList] at hparses
  rw [mapLocations_append, mapLocations_textBlock, Trimmed.origin_terminator hs, htail,
    hparses.mapLocations_congr (cut.agreeIn_origin source here.offset)]

/-- What is kept of a body is read as the blocks of the body, with the terminator joined to a text
before it, if the cut has not concealed a tag. -/
theorem Parses.kept (he : LineEnds cut.terminator) (hopen : ∀ u, ¬ cut.Conceals u)
    (h : Parses o depth here cut.main body)
    (hs : StandsAt source here (cut.content ++ cut.spaces ++ cut.terminator) stop)
    (hd : depth ≤ o.maxDepth) :
    ∃ inner, parse { o with maxDepth := o.maxDepth - depth } (String.ofList cut.kept) = .ok inner ∧
      joinTexts (body ++ textBlock (here.after (cut.content ++ cut.spaces)) cut.tail) =
        joinTexts (mapLocations (cut.origin source here.offset) inner) := by
  by_cases hspaces : cut.spaces = []
  · have hmain : StandsAt source here cut.main stop := by
      rw [(Trimmed.main_eq_kept hspaces).1]
      rwa [hspaces, List.append_nil] at hs
    obtain ⟨inner, hinner, hbody⟩ := h.kept_of_spaces_eq_nil hspaces hmain hd
    exact ⟨inner, hinner, congrArg joinTexts hbody⟩
  · obtain ⟨content, hcontent, hbody⟩ := h.content_of_spaces_ne_nil hspaces hs hd
    have hinner : ∃ inner, parse { o with maxDepth := o.maxDepth - depth }
        (String.ofList cut.kept) = .ok inner ∧ joinTexts inner =
          joinTexts (content ++ textBlock (Location.start.after cut.content) cut.terminator) := by
      by_cases hterminator : cut.terminator = []
      · refine ⟨content, ?_, ?_⟩
        · rwa [Trimmed.kept, hterminator, List.append_nil]
        · rw [hterminator]
          exact congrArg joinTexts (List.append_nil content).symm
      · have hsevered := Trimmed.isSevered_iff.2 ⟨hspaces, hterminator⟩
        rw [parse, String.toList_ofList] at hcontent ⊢
        exact parseBlocks_append he (fun u hu => hopen u ⟨hsevered, hu⟩) hcontent
    obtain ⟨inner, hinner, hjoin⟩ := hinner
    refine ⟨inner, hinner, ?_⟩
    rw [hbody, joinTexts_mapLocations, joinTexts_mapLocations, hjoin]

/-- A tag that the cut has concealed begins in what is kept, and is refused. -/
theorem Parses.kept_of_opener (he : LineEnds cut.terminator) {x : List Char}
    (hsevered : cut.isSevered = true) (hcontent : cut.content = x ++ t.opener)
    (h : Parses o depth here cut.main body)
    (hs : StandsAt source here (cut.content ++ cut.spaces ++ cut.terminator) stop)
    (hd : depth ≤ o.maxDepth) :
    parse { o with maxDepth := o.maxDepth - depth } (String.ofList cut.kept) =
      .error (.malformedTag t .openEnded (Location.start.after x)) := by
  obtain ⟨hspaces, hterminator⟩ := Trimmed.isSevered_iff.1 hsevered
  obtain ⟨content, hinner, -⟩ := h.content_of_spaces_ne_nil hspaces hs hd
  rw [parse, String.toList_ofList, hcontent] at hinner
  rw [parse, String.toList_ofList, Trimmed.kept, hcontent]
  exact parseBlocks_append_opener he hterminator hinner

/-- Where bodies are trimmed, the raw body of every container is read on its own, with as much of
the limit as is left there, as the blocks of the container, up to their places and with neighbouring
texts joined. It is refused if a tag begins in it that the cut has concealed. -/
theorem rawBody_parsed {template : String} (ho : o.trimBodies = true)
    (h : parse o template = .ok blocks) (hn : Nested blocks d block) (ht : block.tag? = some t)
    (hc : t.isContainer = true) :
    d + 1 ≤ o.maxDepth ∧ ∃ whole first last, Stands template.toList first whole last ∧
      let cut := Trimmed.ofBody whole
      let alone := parse { o with maxDepth := o.maxDepth - (d + 1) } block.rawBody
      block.rawBody = String.ofList cut.kept ∧
        ((∀ u, ¬ cut.Conceals u) → ∃ inner, alone = .ok inner ∧ joinTexts block.body =
          joinTexts (mapLocations
            (cut.origin template.toList (first + utf8Length cut.lead)) inner)) ∧
        ∀ u x, cut.isSevered = true → cut.content = x ++ u.opener →
          alone = .error (.malformedTag u .openEnded (Location.start.after x)) := by
  obtain ⟨k, u, header, outer, last, body, -, hbody, hd, hb, rfl⟩ :=
    (parses_of_parseBlocks h).container_of_nested (standsAt_all template.toList) hn ht hc
  rw [Nat.zero_add] at hd hb
  rw [ParseOptions.trimming, if_pos ho] at hb ⊢
  rw [Header.rawBody_block, Header.body_block]
  refine ⟨hd, k.body, (k.bodyLocation outer).offset, last, hbody.stands, ?_⟩
  intro cut alone
  have he : LineEnds cut.terminator := Trimmed.lineEnds_terminator k.body
  have hs : StandsAt template.toList ((k.bodyLocation outer).after cut.lead)
      (cut.content ++ cut.spaces ++ cut.terminator) last := by
    have hwhole : cut.whole = k.body := Trimmed.whole_ofBody k.body
    rw [← hwhole] at hbody
    refine StandsAt.right (x := cut.lead) ?_
    rw [← List.append_assoc, ← List.append_assoc]
    exact hbody
  refine ⟨rfl, fun hopen => ?_, fun u x hsevered hcontent => ?_⟩
  · have hkept := hb.kept he hopen hs hd
    rwa [Location.offset_after, ← Location.after_append, ← List.append_assoc] at hkept
  · exact hb.kept_of_opener he hsevered hcontent hs hd

end

/-- A condition of which the lead and the spaces at its end are dropped. -/
def severed : String := "<if cond:'x'> \n$\x7ba\x7dé  \r\n</if>"

/-- The block of `severed`. -/
def severedBlock : Block :=
  .cond Location.start "x" [("cond", "x")] "$\x7ba\x7dé\r\n"
    [.inline ⟨2, 1, 15⟩ "a", .text ⟨2, 5, 19⟩ "é", .text ⟨2, 8, 23⟩ "\r\n"]

theorem rawBody_severed :
    parse ⟨64, true⟩ severed = .ok [severedBlock] ∧ Nested [severedBlock] 0 severedBlock ∧
      severedBlock.tag? = some .cond ∧ Tag.cond.isContainer = true ∧
      ∃ inner move, parse ⟨63, true⟩ "$\x7ba\x7dé\r\n" = .ok inner ∧
        joinTexts severedBlock.body = joinTexts (mapLocations move inner) := by
  have hblocks : parse ⟨64, true⟩ severed = .ok [severedBlock] :=
    eq_ok_of_toOption (by decide +kernel)
  have hnested : Nested [severedBlock] 0 severedBlock := .here List.mem_cons_self
  obtain ⟨-, whole, first, last, -, hraw, hparsed, -⟩ := rawBody_parsed rfl hblocks hnested rfl rfl
  -- a concealed tag would have its angle bracket in the raw body
  have hopen (u : Tag) : ¬ (Trimmed.ofBody whole).Conceals u := by
    rintro ⟨-, hu⟩
    have hkept : '<' ∈ (Trimmed.ofBody whole).kept :=
      List.mem_append_left _ (hu.subset List.mem_cons_self)
    rw [← String.toList_ofList (l := (Trimmed.ofBody whole).kept), ← hraw] at hkept
    exact absurd hkept (by decide)
  obtain ⟨inner, hinner, hjoin⟩ := hparsed hopen
  exact ⟨hblocks, hnested, rfl, rfl, inner, _, hinner, hjoin⟩

/-- A static block that ends in the name of a tag, in front of spaces and a line feed: its raw body
is not read on its own. -/
theorem rawBody_concealing :
    parse ⟨64, true⟩ "<static>a<if  \n</static>" =
        .ok [.static Location.start "a<if\n" [.text ⟨1, 9, 8⟩ "a<if", .text ⟨1, 15, 14⟩ "\n"]] ∧
      parse ⟨63, true⟩ "a<if\n" = .error (.malformedTag .cond .openEnded ⟨1, 2, 1⟩) :=
  ⟨eq_ok_of_toOption (by decide +kernel), eq_error_of_error? (by decide +kernel)⟩

end Stencil.Markup
