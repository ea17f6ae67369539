import Stencil.Markup.Range
import Stencil.Proofs.Markup.Closing
import Stencil.Proofs.Markup.Tiling

/-!
# A range is read as the text in it

The readers that get a whole source and a range (`Stencil.Markup.Extent`, `Stencil.Markup.Range`)
find in the range what the readers of texts find in the text that stands there. The searches for the
end of a tag and for a closing tag never look behind their limit (`openingEnd_append`,
`closingExtent_eq`), and so it is for constructs (`nextExtent_eq`) and for blocks
(`parseRange_eq`).
-/

namespace Stencil.Markup

open Stencil.Text

/-! ## Texts at their place in a source -/

/-- The text `cs` stands in `source` at the location `here` and up to the byte offset `stop`. -/
structure StandsAt (source : List Char) (here : Location) (cs : List Char) (stop : Nat) : Prop where
  stands : Stands source here.offset cs stop
  ofOffset_eq : Location.ofOffset source here.offset = here

section

variable {source cs x y : List Char} {here : Location} {start stop : Nat}

theorem Stands.window_eq (h : Stands source start cs stop) : window start stop source = cs := by
  obtain ⟨before, after, rfl, rfl, rfl⟩ := h
  rw [← utf8Length_append, window_append]

theorem Stands.offset_ofOffset (h : Stands source start cs stop) :
    (Location.ofOffset source start).offset = start := by
  obtain ⟨before, after, rfl, rfl, -⟩ := h
  rw [List.append_assoc, Location.ofOffset, takeBytes_utf8Length, Location.offset_after,
    Location.start, Nat.zero_add]

/-- What stands inside of a range stands in the text of the range. -/
theorem Stands.inside_iff (h : Stands source start cs stop) {first last : Nat} :
    start ≤ first ∧ Stands source first y last ∧ last ≤ stop ↔
      ∃ x z, cs = x ++ (y ++ z) ∧ first = start + utf8Length x ∧ last = first + utf8Length y := by
  constructor
  · obtain ⟨before, rest, hsource, rfl, rfl⟩ := h
    rintro ⟨hstart, ⟨before', rest', hsource', rfl, rfl⟩, hstop⟩
    have hbefore : before <+: source := ⟨cs ++ rest, by rw [hsource, List.append_assoc]⟩
    have hbefore' : before' <+: source := ⟨y ++ rest', by rw [hsource', List.append_assoc]⟩
    obtain ⟨x, rfl⟩ := isPrefix_of_utf8Length_le hbefore hbefore' hstart
    have hcs : cs ++ rest = x ++ y ++ rest' := by
      have hboth := hsource.symm.trans hsource'
      simp only [List.append_assoc, List.append_cancel_left_eq] at hboth
      rw [hboth, List.append_assoc]
    obtain ⟨z, rfl⟩ : x ++ y <+: cs := by
      refine isPrefix_of_utf8Length_le ⟨rest', hcs.symm⟩ ⟨rest, rfl⟩ ?_
      simp only [utf8Length_append] at hstop ⊢
      omega
    exact ⟨x, z, List.append_assoc x y z, utf8Length_append before x, rfl⟩
  · rintro ⟨x, z, rfl, rfl, rfl⟩
    have hbehind := h.append.2
    refine ⟨Nat.le_add_right _ _, hbehind.append.1, ?_⟩
    obtain ⟨_, _, -, -, rfl⟩ := hbehind
    rw [utf8Length_append]
    omega

/-- What stands in a source stands there at the location of its byte offset. -/
theorem Stands.standsAt (h : Stands source start cs stop) :
    StandsAt source (Location.ofOffset source start) cs stop :=
  ⟨by rwa [h.offset_ofOffset], by rw [h.offset_ofOffset]⟩

/-- A text stands in itself, from its beginning on. -/
theorem standsAt_all (cs : List Char) : StandsAt cs Location.start cs (utf8Length cs) := by
  refine ⟨stands_all cs, ?_⟩
  rw [Location.start, Location.ofOffset, takeBytes_zero]
  rfl

theorem StandsAt.left (h : StandsAt source here (x ++ y) stop) :
    StandsAt source here x (here.after x).offset := by
  rw [Location.offset_after]
  exact ⟨h.stands.append.1, h.ofOffset_eq⟩

theorem StandsAt.right (h : StandsAt source here (x ++ y) stop) :
    StandsAt source (here.after x) y stop := by
  refine ⟨by simpa [Location.offset_after] using h.stands.append.2, ?_⟩
  obtain ⟨⟨before, after, rfl, hbefore, -⟩, hhere⟩ := h
  rw [Location.ofOffset, ← hbefore, List.append_assoc, takeBytes_utf8Length] at hhere
  rw [Location.offset_after, ← hbefore, ← utf8Length_append, Location.ofOffset,
    show before ++ (x ++ y) ++ after = before ++ x ++ (y ++ after) by simp, takeBytes_utf8Length,
    Location.after_append, hhere]

theorem StandsAt.window_eq (h : StandsAt source here cs stop) :
    window here.offset stop source = cs :=
  h.stands.window_eq

/-- The source from a place on. -/
theorem StandsAt.dropBytes_eq (h : StandsAt source here cs stop) :
    ∃ beyond, dropBytes here.offset source = cs ++ beyond := by
  obtain ⟨⟨before, after, rfl, hbefore, -⟩, -⟩ := h
  exact ⟨after, by rw [← hbefore, List.append_assoc, dropBytes_utf8Length]⟩

theorem StandsAt.stop_eq (h : StandsAt source here cs stop) :
    stop = here.offset + utf8Length cs := by
  obtain ⟨⟨_, _, _, _, hstop⟩, -⟩ := h
  exact hstop.symm

end

/-! ## Opening tags -/

theorem openingEnd_eq_none {limit pos : Nat} (h : limit ≤ pos) (quoted : Bool) (cs : List Char) :
    openingEnd limit quoted pos cs = none := by
  unfold openingEnd
  split
  · rfl
  · exact if_pos h
  · exact if_pos h

/-- A character that hides no other one. -/
theorem openingEnd_plain {limit pos : Nat} {quoted : Bool} {c : Char} (hpos : pos < limit)
    (h : quoted = true → c ≠ '\\') (cs : List Char) :
    openingEnd limit quoted pos (c :: cs) =
      if c = '\x27' then openingEnd limit (!quoted) (pos + 1) cs
      else if c = '>' && !quoted then some pos
      else openingEnd limit quoted (pos + c.utf8Size) cs := by
  rw [openingEnd, if_neg (Nat.not_le.2 hpos)]
  exact fun _ _ hq hc => absurd hc (h hq)

/-- The search for the end of an opening tag does not look beyond the limit. -/
theorem openingEnd_append (quoted : Bool) (pos : Nat) (cs beyond : List Char) :
    openingEnd (pos + utf8Length cs) quoted pos (cs ++ beyond) =
      (splitOpening quoted cs).map fun p => pos + utf8Length p.1 := by
  have hsize (c : Char) := c.utf8Size_pos
  fun_induction splitOpening quoted cs generalizing pos with
  | case1 => exact openingEnd_eq_none (Nat.le_refl _) _ _
  | case2 =>
    -- what the backslash hides stands beyond the limit
    cases beyond with
    | nil => simp [openingEnd]
    | cons d ds =>
      rw [List.cons_append, List.nil_append, openingEnd]
      split
      · rfl
      · exact openingEnd_eq_none (Nat.le_add_right _ _) _ _
  | case3 c cs ih =>
    have hlimit : pos + utf8Length ('\\' :: c :: cs) =
        pos + 1 + c.utf8Size + utf8Length cs := by
      rw [utf8Length_cons, utf8Length_cons, show '\\'.utf8Size = 1 from rfl]
      omega
    rw [List.cons_append, List.cons_append, openingEnd, if_neg (by rw [hlimit]; omega), hlimit, ih,
      Option.map_map]
    refine congrArg (Option.map · _) (funext fun p => ?_)
    simp only [Function.comp_apply, utf8Length_cons, show '\\'.utf8Size = 1 from rfl]
    omega
  | case4 quoted cs h₁ h₂ ih =>
    have hlimit : pos + utf8Length ('\x27' :: cs) = pos + 1 + utf8Length cs := by
      rw [utf8Length_cons, show '\x27'.utf8Size = 1 from rfl]
      omega
    rw [List.cons_append, hlimit, openingEnd_plain (by omega) (fun _ => by decide), if_pos rfl, ih,
      Option.map_map]
    refine congrArg (Option.map · _) (funext fun p => ?_)
    simp only [Function.comp_apply, utf8Length_cons, show '\x27'.utf8Size = 1 from rfl]
    omega
  | case5 quoted c cs h₁ h₂ h₃ hc =>
    have := hsize c
    have hplain : quoted = true → c ≠ '\\' := by
      rintro rfl
      simp at hc
    rw [List.cons_append, openingEnd_plain (by rw [utf8Length_cons]; omega) hplain, if_neg h₃,
      if_pos hc]
    rfl
  | case6 quoted c cs h₁ h₂ h₃ h₄ ih =>
    have := hsize c
    have hplain : quoted = true → c ≠ '\\' := fun hq =>
      ne_of_not_escape (h₁ hq) fun d ds => h₂ d ds hq
    rw [List.cons_append, openingEnd_plain (by rw [utf8Length_cons]; omega) hplain, if_neg h₃,
      if_neg h₄, utf8Length_cons, ← Nat.add_assoc, ih, Option.map_map]
    refine congrArg (Option.map · _) (funext fun p => ?_)
    simp only [Function.comp_apply, utf8Length_cons]
    omega

section

variable {source cs before rest inner tail : List Char} {here : Location} {t : Tag} {limit : Nat}

theorem openingStop_eq (h : StandsAt source here (t.opener ++ rest) limit) :
    openingStop source t limit here.offset =
      match splitOpening false rest with
      | none => .error (.malformedTag t .openEnded here)
      | some (inner, _) => .ok (here.offset + utf8Length t.opener + utf8Length inner) := by
  have hrest := h.right
  obtain ⟨beyond, hdrop⟩ := hrest.dropBytes_eq
  rw [Location.offset_after] at hdrop
  have hlimit : limit = here.offset + utf8Length t.opener + utf8Length rest := by
    rw [hrest.stop_eq, Location.offset_after]
  rw [openingStop, hdrop, hlimit, openingEnd_append, h.ofOffset_eq]
  cases splitOpening false rest <;> rfl

theorem openingInner_eq (h : StandsAt source here (t.opener ++ (inner ++ tail)) limit) :
    openingInner source t here.offset (here.offset + utf8Length t.opener + utf8Length inner) =
      inner := by
  have hinner := h.right.left.window_eq
  rwa [Location.offset_after, Location.offset_after, Location.offset_after] at hinner

end

/-! ## Closing tags -/

theorem findTag_singleton (t : Tag) (cs : List Char) :
    findTag [t] cs = (t.find? cs).map fun p => (p.1, t) := by
  induction cs with
  | nil => rfl
  | cons c cs ih =>
    rw [findTag, Tag.find?]
    cases hs : t.strip (c :: cs) with
    | none => simp [hs, ih, Function.comp_def]
    | some rest => simp [hs]

section

variable {source before after lead : List Char} {t u : Tag} {owner limit pending pos stop : Nat}

theorem closingExtent_none (hs : splitAtWord t.closer (window pos limit source) = none) :
    closingExtent source t owner limit pending pos =
      .error (.malformedTag t .unclosed (Location.ofOffset source owner)) := by
  rw [closingExtent]
  split
  · rfl
  · rename_i hs'
    cases hs.symm.trans hs'

theorem closingExtent_some
    (hs : splitAtWord t.closer (window pos limit source) = some (before, after))
    (hf : findTag [t] (window pos (pos + utf8Length before) source) = some (lead, u)) :
    closingExtent source t owner limit pending pos =
      match openingStop source t limit (pos + utf8Length lead) with
      | .error e => .error e
      | .ok stop =>
        closingExtent source t owner limit
          (pendingAfter (openingInner source t (pos + utf8Length lead) stop) pending)
          (stop + 1) := by
  conv => lhs; rw [closingExtent]
  split
  · rename_i hs'
    cases hs.symm.trans hs'
  · rename_i hs'
    cases hs.symm.trans hs'
    dsimp only
    rw [hf]
    dsimp only
    split <;> rename_i hstop <;> rw [hstop]

theorem closingExtent_zero
    (hs : splitAtWord t.closer (window pos limit source) = some (before, after))
    (hf : findTag [t] (window pos (pos + utf8Length before) source) = none) :
    closingExtent source t owner limit 0 pos =
      .ok (pos + utf8Length before, pos + utf8Length before + utf8Length t.closer) := by
  rw [closingExtent]
  split
  · rename_i hs'
    cases hs.symm.trans hs'
  · rename_i hs'
    cases hs.symm.trans hs'
    dsimp only
    rw [hf]

theorem closingExtent_succ
    (hs : splitAtWord t.closer (window pos limit source) = some (before, after))
    (hf : findTag [t] (window pos (pos + utf8Length before) source) = none) :
    closingExtent source t owner limit (pending + 1) pos =
      closingExtent source t owner limit pending
        (pos + utf8Length before + utf8Length t.closer) := by
  rw [closingExtent]
  split
  · rename_i hs'
    cases hs.symm.trans hs'
  · rename_i hs'
    cases hs.symm.trans hs'
    dsimp only
    rw [hf]

end

section

variable {source cs : List Char} {here owner : Location} {t : Tag} {limit pending : Nat}

theorem Tag.offset_after_openTag (t : Tag) (here : Location) (inner : List Char) :
    (here.after (t.openTag inner)).offset =
      here.offset + utf8Length t.opener + utf8Length inner + 1 := by
  rw [Location.offset_after, openTag, utf8Length_append, utf8Length_append,
    show utf8Length ['>'] = 1 from rfl]
  omega

/-- The search for a closing tag does not look beyond the limit. -/
theorem closingExtent_eq (h : StandsAt source here cs limit)
    (howner : Location.ofOffset source owner.offset = owner) :
    closingExtent source t owner.offset limit pending here.offset =
      (findCloser t owner pending here cs).map fun p =>
        (here.offset + utf8Length p.1, here.offset + utf8Length p.1 + utf8Length t.closer) := by
  have htag {here : Location} {before after : List Char}
      (h : StandsAt source here (before ++ after) limit) :
      findTag [t] (window here.offset (here.offset + utf8Length before) source) =
        (t.find? before).map fun p => (p.1, t) := by
    rw [← Location.offset_after, h.left.window_eq, findTag_singleton]
  fun_induction findCloser t owner pending here cs with
  | case1 pending here cs hs =>
    rw [closingExtent_none (h.window_eq.symm ▸ hs), howner]
    rfl
  | case2 pending here cs before after hs lead rest hf hopen =>
    have hin := h.window_eq.symm ▸ hs
    rw [splitAtWord_eq hs, List.append_assoc] at h
    rw [closingExtent_some hin (by rw [htag h, hf]; rfl), ← Location.offset_after]
    rw [Tag.find?_eq hf, List.append_assoc, List.append_assoc] at h
    rw [openingStop_eq h.right, ← List.append_assoc, hopen]
    rfl
  | case3 pending here cs before after hs lead rest hf inner tail hopen _ ih =>
    have hin := h.window_eq.symm ▸ hs
    rw [splitAtWord_eq hs, List.append_assoc] at h
    rw [closingExtent_some hin (by rw [htag h, hf]; rfl), ← Location.offset_after]
    rw [Tag.find?_eq hf, List.append_assoc, List.append_assoc] at h
    rw [openingStop_eq h.right, ← List.append_assoc, hopen]
    rw [← List.append_assoc rest, splitOpening_eq hopen] at h
    dsimp only
    have htail : lead ++ (t.opener ++ (inner ++ '>' :: tail)) =
        lead ++ t.openTag inner ++ tail := by
      simp [Tag.openTag]
    have hnext := ih (htail ▸ h).right
    rw [openingInner_eq h.right, ← Tag.offset_after_openTag, ← Location.after_append, hnext,
      Location.offset_after]
    cases findCloser t owner (pendingAfter inner pending) (here.after (lead ++ t.openTag inner))
      tail with
    | error e => rfl
    | ok p => simp [Except.map, Nat.add_assoc]
  | case4 here cs before after hs hf =>
    have hin := h.window_eq.symm ▸ hs
    rw [splitAtWord_eq hs, List.append_assoc] at h
    rw [closingExtent_zero hin (by rw [htag h, hf]; rfl)]
    rfl
  | case5 here cs before after hs hf pending _ ih =>
    have hin := h.window_eq.symm ▸ hs
    rw [splitAtWord_eq hs] at h
    have hafter := ih h.right
    rw [Location.offset_after, utf8Length_append, ← Nat.add_assoc] at hafter
    rw [List.append_assoc] at h
    rw [closingExtent_succ hin (by rw [htag h, hf]; rfl), hafter]
    cases findCloser t owner pending (here.after (before ++ t.closer)) after with
    | error e => rfl
    | ok p => simp [Except.map, Nat.add_assoc]

end

/-! ## Constructs -/

/-- The byte offsets of a construct that was found in a text, for a text that begins at `start`. -/
def Construct.placed (k : Construct) (start : Nat) : Extent :=
  let place := start + utf8Length k.before
  let bodyStart := place + utf8Length k.opening
  let bodyStop := bodyStart + utf8Length k.body
  ⟨k.kind, k.attributes, place, k.body, bodyStart, bodyStop, bodyStop + utf8Length k.closing⟩

namespace Construct

variable (k : Construct) (here : Location)

theorem start_placed : (k.placed here.offset).start = (k.location here).offset := by
  rw [location, Location.offset_after]
  rfl

theorem bodyStart_placed : (k.placed here.offset).bodyStart = (k.bodyLocation here).offset := by
  rw [bodyLocation, Location.offset_after, ← start_placed]
  rfl

theorem bodyStop_placed :
    (k.placed here.offset).bodyStop = ((k.bodyLocation here).after k.body).offset := by
  rw [Location.offset_after, ← bodyStart_placed]
  rfl

theorem stop_placed : (k.placed here.offset).stop = (k.afterLocation here).offset := by
  rw [afterLocation, Location.offset_after, ← start_placed, extent]
  simp [placed, Nat.add_assoc]

end Construct

section

variable {source cs before rest : List Char} {here : Location} {t : Tag} {stop : Nat}

theorem tagExtent_eq (h : StandsAt source here (before ++ (t.opener ++ rest)) stop) :
    tagExtent source t stop (here.offset + utf8Length before) =
      (Construct.ofTag here before t rest).map (·.placed here.offset) := by
  rw [tagExtent, ← Location.offset_after, openingStop_eq h.right, Construct.ofTag]
  cases hs : splitOpening false rest with
  | none => rfl
  | some p =>
    obtain ⟨inner, tail⟩ := p
    rw [splitOpening_eq hs] at h
    dsimp only
    rw [openingInner_eq h.right, ← Tag.offset_after_openTag]
    split
    · simp [Except.map, Construct.placed, Location.offset_after, Tag.openTag, Nat.add_assoc,
        show utf8Length ['>'] = 1 from rfl]
    · have htail : before ++ (t.opener ++ (inner ++ '>' :: tail)) =
          before ++ (t.openTag inner ++ tail) := by
        simp [Tag.openTag]
      rw [htail] at h
      have hbody := h.right.right
      rw [closingExtent_eq hbody h.right.ofOffset_eq]
      cases hf : findCloser t (here.after before) 0 ((here.after before).after (t.openTag inner))
        tail with
      | error e => rfl
      | ok q =>
        have hq := findCloser_eq hf
        rw [hq, List.append_assoc] at hbody
        have hcontent := hbody.left.window_eq
        rw [Location.offset_after _ q.1] at hcontent
        simp only [Except.map, hcontent]
        simp [Construct.placed, Location.offset_after, Nat.add_assoc]

end

/-! ### Heads -/

open Construct

theorem tagHead_eq (cs : List Char) :
    tagHead cs = (Tag.all.find? fun t => (t.strip cs).isSome).bind fun t =>
      (t.strip cs).map (t, ·) := by
  unfold tagHead
  generalize Tag.all = tags
  induction tags with
  | nil => rfl
  | cons t tags ih => cases ht : t.strip cs <;> simp [ht, ih]

/-- No inline expression begins where a tag does. -/
theorem read_of_tagHead {cs : List Char} {p : Tag × List Char} (h : tagHead cs = some p) :
    Inline.read cs = none := by
  rw [tagHead_eq, Option.bind_eq_some_iff] at h
  obtain ⟨t, -, hs⟩ := h
  obtain ⟨rest, hrest, -⟩ := Option.map_eq_some_iff.1 hs
  rw [Tag.strip_eq hrest]
  rfl

/-- What is found behind the first character is found later than at the beginning. -/
theorem utf8Length_pos_of_mem_map {α : Type} {c : Char} {found : Option (List Char × α)}
    {p : List Char × α} (h : p ∈ found.map fun p => (c :: p.1, p.2)) :
    utf8Length [] < utf8Length p.1 := by
  obtain ⟨q, -, rfl⟩ := Option.map_eq_some_iff.1 h
  exact utf8Length_pos (List.cons_ne_nil _ _)

/-- The first head of a text is the first tag or the first inline expression of it, whichever comes
first. -/
theorem findHead_choose (cs : List Char) :
    match findHead cs with
    | none => findTag Tag.all cs = none ∧ Inline.find? cs = none
    | some (before, .inline i) => Inline.find? cs = some (before, i) ∧
        ∀ p ∈ findTag Tag.all cs, utf8Length before < utf8Length p.1
    | some (before, .tag t _) => findTag Tag.all cs = some (before, t) ∧
        ∀ p ∈ Inline.find? cs, utf8Length before < utf8Length p.1 := by
  induction cs with
  | nil => exact ⟨rfl, rfl⟩
  | cons c cs ih =>
    cases ht : Tag.all.find? fun t => (t.strip (c :: cs)).isSome with
    | some t =>
      obtain ⟨rest, hrest⟩ : ∃ rest, t.strip (c :: cs) = some rest :=
        Option.isSome_iff_exists.1 (by simpa using List.find?_some ht)
      have hhead : tagHead (c :: cs) = some (t, rest) := by
        rw [tagHead_eq, ht]
        simp [hrest]
      rw [findHead, head?, findTag, Inline.find?, hhead, ht, read_of_tagHead hhead]
      exact ⟨rfl, fun p => utf8Length_pos_of_mem_map⟩
    | none =>
      have hhead : tagHead (c :: cs) = none := by
        rw [tagHead_eq, ht]
        rfl
      rw [findHead, head?, findTag, Inline.find?, hhead, ht]
      cases hr : Inline.read (c :: cs) with
      | some i => exact ⟨rfl, fun p => utf8Length_pos_of_mem_map⟩
      | none =>
        dsimp only [Option.map_none]
        -- nothing begins here, so that all three searches go on behind the character
        split at ih
        · rename_i hn
          rw [hn, ih.1, ih.2]
          exact ⟨rfl, rfl⟩
        · rename_i before i hi
          rw [hi, ih.1]
          refine ⟨rfl, fun p hp => ?_⟩
          obtain ⟨q, hq, rfl⟩ := Option.map_eq_some_iff.1 hp
          simpa using ih.2 q hq
        · rename_i before t rest hi
          rw [hi, ih.1]
          refine ⟨rfl, fun p hp => ?_⟩
          obtain ⟨q, hq, rfl⟩ := Option.map_eq_some_iff.1 hp
          simpa using ih.2 q hq

section

variable {source cs : List Char} {here : Location} {start stop : Nat}

/-- The first construct of a range is the first construct of the text in it. -/
theorem nextExtent_eq (h : StandsAt source here cs stop) :
    nextExtent source here.offset stop =
      (next here cs).map (Option.map (·.placed here.offset)) := by
  have hchoose := findHead_choose cs
  rw [nextExtent, h.window_eq]
  split at hchoose
  · rename_i hn
    rw [hchoose.1, hchoose.2, next, hn]
    rfl
  · rename_i before i hi
    rw [hchoose.1, next, hi]
    cases hf : findTag Tag.all cs with
    | none => rfl
    | some p =>
      have hlt := hchoose.2 p hf
      dsimp only
      rw [if_neg (Nat.not_lt.2 (Nat.le_of_lt hlt))]
      rfl
  · rename_i before t rest hi
    have hcs := (findHead_eq hi).1
    rw [Head.whole] at hcs
    have htag : (tagExtent source t stop (here.offset + utf8Length before)).map some =
        ((ofTag here before t rest).map some).map (Option.map (·.placed here.offset)) := by
      rw [tagExtent_eq (hcs ▸ h)]
      cases ofTag here before t rest <;> rfl
    rw [hchoose.1, next, hi]
    cases hf : Inline.find? cs with
    | none => exact htag
    | some p =>
      have hlt := hchoose.2 p hf
      dsimp only
      rw [if_pos hlt]
      exact htag

/-- The body of a construct stands in the source behind the opening tag. -/
theorem StandsAt.body (h : StandsAt source here cs stop) {k : Construct}
    (hn : next here cs = .ok (some k)) :
    StandsAt source (k.bodyLocation here) k.body ((k.bodyLocation here).after k.body).offset := by
  rw [(next_eq hn).1, extent, List.append_assoc, List.append_assoc, List.append_assoc] at h
  exact h.right.right.left

/-- The main part of a body stands behind its lead. -/
theorem StandsAt.main {cut : Trimmed} (h : StandsAt source here cut.whole stop) :
    StandsAt source (here.after cut.lead) cut.main
      ((here.after cut.lead).after cut.main).offset := by
  obtain ⟨rest, hrest⟩ := cut.lead_append_main_isPrefix
  rw [← hrest, List.append_assoc] at h
  exact h.right.left

/-- The terminator of a body stands at its end. -/
theorem StandsAt.terminator {cut : Trimmed} (h : StandsAt source here cut.whole stop) :
    StandsAt source (here.after cut.beforeTail) cut.terminator stop :=
  StandsAt.right (x := cut.beforeTail) h

/-- A construct that was found in a range is cut out of the source as it was found in the text. -/
theorem cut_placed (h : StandsAt source here cs stop) {k : Construct}
    (hn : next here cs = .ok (some k)) :
    (k.placed here.offset).cut source here.offset stop = k := by
  rw [(next_eq hn).1, extent, List.append_assoc, List.append_assoc, List.append_assoc] at h
  have hbefore := h.left.window_eq
  have hopening := h.right.left.window_eq
  have hclosing := h.right.right.right.left.window_eq
  have hafter := h.right.right.right.right.window_eq
  simp only [Location.offset_after] at hbefore hopening hclosing hafter
  simp only [placed, Extent.cut, hbefore, hopening, hclosing, hafter]

/-- The first construct between two byte offsets is the first construct of the text there. -/
theorem nextIn_eq (h : StandsAt source here cs stop) :
    nextIn source here.offset stop = next here cs := by
  rw [nextIn, nextExtent_eq h]
  cases hn : next here cs with
  | error e => rfl
  | ok found =>
    cases found with
    | none => rfl
    | some k =>
      simp only [Except.map, Option.map_some, cut_placed h hn]

end

/-! ## Blocks -/

/-- The block that a construct in place stands for, in the range in which it was found, inside
`depth` containers. -/
def readExtent (o : ParseOptions) (source : List Char) (depth start stop : Nat) (s : Extent) :
    Except MarkupError Block :=
  let place := Location.ofOffset source s.start
  match s.kind with
  | .inline => .ok (.inline place (String.ofList s.content))
  | .tag .inclusion => readInclusion (s.cut source start stop) place
  | .tag tag =>
    match readHeader (s.cut source start stop) tag place with
    | .error e => .error e
    | .ok header =>
      if depth + 1 > o.maxDepth then .error (.depthExceeded o.maxDepth place)
      else
        let cut := o.trimming s.content
        let first := s.bodyStart + utf8Length cut.lead
        (parseRange o source (depth + 1) first (first + utf8Length cut.main)).map fun body =>
          header.block place s.attributes (String.ofList cut.kept)
            (body ++ textBlock
              (Location.ofOffset source (s.bodyStart + utf8Length cut.beforeTail)) cut.tail)

section

variable {o : ParseOptions} {source : List Char} {depth start stop : Nat}

theorem parseRange_error {e : MarkupError} (h : nextExtent source start stop = .error e) :
    parseRange o source depth start stop = .error e := by
  rw [parseRange]
  split <;> simp_all

theorem parseRange_none (h : nextExtent source start stop = .ok none) :
    parseRange o source depth start stop =
      .ok (textBlock (Location.ofOffset source start) (window start stop source)) := by
  rw [parseRange]
  split <;> simp_all

theorem parseRange_step {s : Extent} (h : nextExtent source start stop = .ok (some s)) :
    parseRange o source depth start stop =
      match readExtent o source depth start stop s with
      | .error e => .error e
      | .ok block =>
        (parseRange o source depth s.stop stop).map fun rest =>
          textBlock (Location.ofOffset source start) (window start s.start source) ++
            block :: rest := by
  rw [parseRange]
  split
  · rename_i h'
    cases h.symm.trans h'
  · rename_i h'
    cases h.symm.trans h'
  · rename_i h'
    cases h.symm.trans h'
    rfl

end

section

variable {o : ParseOptions} {source cs : List Char} {here : Location} {depth stop : Nat}

/-- A construct in place stands for the same block as the construct that was cut out, provided that
what is left of its body by trimming is read alike. -/
theorem readExtent_eq (h : StandsAt source here cs stop) {k : Construct}
    (hn : next here cs = .ok (some k))
    (hbody : ∀ (there : Location) (last : Nat),
      StandsAt source there (o.trimming k.body).main last →
        parseRange o source (depth + 1) there.offset last =
          parseBlocks o (depth + 1) there (o.trimming k.body).main) :
    readExtent o source depth here.offset stop (k.placed here.offset) =
      readBlock o depth here k := by
  have hplace : Location.ofOffset source (k.placed here.offset).start = k.location here := by
    rw [(next_eq hn).1, List.append_assoc] at h
    rw [start_placed]
    exact h.right.ofOffset_eq
  have hin : StandsAt source (k.bodyLocation here) (o.trimming k.body).whole
      ((k.bodyLocation here).after k.body).offset := by
    rw [o.whole_trimming]
    exact h.body hn
  -- the body, of which the lead comes first and the tail stands behind the spaces
  have hmain := hbody _ _ hin.main
  have htail := hin.terminator.ofOffset_eq
  simp only [Location.offset_after] at hmain htail
  rw [readExtent, cut_placed h hn]
  dsimp only
  rw [hplace, bodyStart_placed]
  simp only [show (k.placed here.offset).kind = k.kind from rfl,
    show (k.placed here.offset).content = k.body from rfl,
    show (k.placed here.offset).attributes = k.attributes from rfl, hmain, htail]
  rfl

/-- The blocks of a range are the blocks of the text in it. -/
theorem parseRange_eq (h : StandsAt source here cs stop) :
    parseRange o source depth here.offset stop = parseBlocks o depth here cs := by
  -- body and rest of a construct are shorter than the text
  induction hl : cs.length using Nat.strongRecOn generalizing depth here cs stop with
  | ind n ih =>
    subst hl
    have hnext := nextExtent_eq h
    cases hn : next here cs with
    | error e =>
      rw [hn] at hnext
      rw [parseRange_error hnext, parseBlocks_error hn]
    | ok found =>
      rw [hn] at hnext
      cases found with
      | none => rw [parseRange_none hnext, parseBlocks_none hn, h.window_eq, h.ofOffset_eq]
      | some k =>
        have hblock : readExtent o source depth here.offset stop (k.placed here.offset) =
            readBlock o depth here k :=
          readExtent_eq h hn fun there last hmain => ih _ (length_main_lt o hn) hmain rfl
        rw [parseRange_step hnext, hblock]
        rw [(next_eq hn).1, List.append_assoc] at h
        have hbefore := h.left.window_eq
        rw [Location.offset_after] at hbefore
        have hrest : parseRange o source depth (k.afterLocation here).offset stop =
            parseBlocks o depth (k.afterLocation here) k.after :=
          ih _ (length_after_lt hn) h.right.right rfl
        rw [stop_placed, hrest, h.ofOffset_eq,
          show (k.placed here.offset).start = here.offset + utf8Length k.before from rfl, hbefore]
        exact (parseBlocks_step hn).symm

end

end Stencil.Markup
