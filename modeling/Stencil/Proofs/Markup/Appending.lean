import Stencil.Proofs.Markup.Enclosure
import Stencil.Proofs.Markup.InlineSearch

/-!
# A text with line ends behind it

A construct that is found in a text is found in it as well if line ends follow the text
(`Construct.next_append`). Nothing else is found then, unless the text ends in the name of an
opening tag: white space ends the name, so that a tag begins there, and no `>` ends the tag.

So the blocks of a text with line ends behind it are those of the text and a last text, which is
joined to a text before it (`parseBlocks_append`), or the tag at its end is refused
(`parseBlocks_append_opener`).
-/

namespace Stencil.Markup

open Stencil.Text

/-- Only characters that end lines. -/
def LineEnds (cs : List Char) : Prop := ∀ c ∈ cs, c = '\r' ∨ c = '\n'

theorem LineEnds.not_mem {cs : List Char} (he : LineEnds cs) {c : Char}
    (hc : c ≠ '\r' ∧ c ≠ '\n') : c ∉ cs :=
  fun hm => (he c hm).elim hc.1 hc.2

/-! ## Searches with more text behind -/

/-- A word that is found is found at the same place if more text follows. -/
theorem splitAtWord_of_eq_some {word cs before after : List Char}
    (h : splitAtWord word cs = some (before, after)) (rest : List Char) :
    splitAtWord word (cs ++ rest) = some (before, after ++ rest) := by
  induction cs generalizing before with
  | nil =>
    obtain ⟨r, hr, he⟩ := Option.map_eq_some_iff.1 h
    cases he
    obtain ⟨rfl, rfl⟩ := List.append_eq_nil_iff.1 (stripWord_eq hr).symm
    exact splitAtWord_self [] rest
  | cons c cs ih =>
    rw [splitAtWord] at h
    split at h
    · rename_i hr
      cases h
      rw [stripWord_eq hr, List.append_assoc]
      exact splitAtWord_self word (after ++ rest)
    · rename_i hnone
      obtain ⟨p, hp, he⟩ := Option.map_eq_some_iff.1 h
      cases he
      -- the word stands in `cs`, so it is not longer, and cannot begin at `c` and end in `rest`
      have hstrip : stripWord word (c :: (cs ++ rest)) = none := by
        refine Option.eq_none_iff_forall_ne_some.2 fun r hr => ?_
        have hword : word <+: c :: cs ++ rest := ⟨r, (stripWord_eq hr).symm⟩
        have hlength := congrArg List.length (splitAtWord_eq hp)
        simp only [List.length_append] at hlength
        have hshort : word <+: c :: cs :=
          List.prefix_of_prefix_length_le hword (List.prefix_append _ _) (by
            rw [List.length_cons]
            omega)
        exact stripWord_ne_none hshort hnone
      rw [List.cons_append, splitAtWord, hstrip, ih hp]
      rfl

theorem splitOpening_of_eq_some {quoted : Bool} {cs inner tail : List Char}
    (h : splitOpening quoted cs = some (inner, tail)) (rest : List Char) :
    splitOpening quoted (cs ++ rest) = some (inner, tail ++ rest) := by
  rw [splitOpening_eq h, List.append_assoc]
  exact splitOpening_of_eq h (tail ++ rest)

theorem splitOpening_lineEnds {cs : List Char} (h : LineEnds cs) :
    splitOpening false cs = none := by
  rw [← List.append_nil cs, splitOpening_append (h.not_mem (by decide)) (h.not_mem (by decide))]
  rfl

/-- A closing tag that is found is found at the same place if more text follows. -/
theorem findCloser_of_eq_ok {t : Tag} {owner here : Location} {pending : Nat}
    {cs body after : List Char} (h : findCloser t owner pending here cs = .ok (body, after))
    (rest : List Char) :
    findCloser t owner pending here (cs ++ rest) = .ok (body, after ++ rest) := by
  fun_induction findCloser t owner pending here cs generalizing body with
  | case1 => cases h
  | case2 => cases h
  | case3 pending here cs before beyond hs lead tag hf inner tail ho _ ih =>
    obtain ⟨p, hp, he⟩ := map_eq_ok_iff.1 h
    cases he
    have hopen := splitOpening_of_eq_some ho rest
    rw [List.append_assoc] at hopen
    rw [findCloser_nested (splitAtWord_of_eq_some hs rest) hf hopen, ih hp]
    rfl
  | case4 here cs before beyond hs hf =>
    cases h
    exact findCloser_zero (splitAtWord_of_eq_some hs rest) hf
  | case5 here cs before beyond hs hf pending _ ih =>
    obtain ⟨p, hp, he⟩ := map_eq_ok_iff.1 h
    cases he
    rw [findCloser_succ (splitAtWord_of_eq_some hs rest) hf, ih hp]
    rfl

namespace Inline

theorem read_of_eq_some {cs : List Char} {i : Inline} (h : read cs = some i) (rest : List Char) :
    read (cs ++ rest) = some { i with after := i.after ++ rest } := by
  obtain ⟨inner, after, hbrace, hline, rfl, rfl⟩ := read_eq_some_iff.1 h
  exact read_eq_some_iff.2 ⟨inner, after ++ rest, hbrace, hline, by simp, rfl⟩

/-- Without a brace in what follows no inline expression comes about. -/
theorem read_of_eq_none {cs rest : List Char} (h : read cs = none) (hr : '}' ∉ rest) :
    read (cs ++ rest) = none := by
  refine Option.eq_none_iff_forall_ne_some.2 fun i hi => ?_
  obtain ⟨inner, after, hbrace, hline, he, -⟩ := read_eq_some_iff.1 hi
  have he : cs ++ rest = '$' :: '{' :: inner ++ '}' :: after := he
  obtain ⟨a, -, rfl⟩ | ⟨a, hcs, ha⟩ := List.append_eq_append_iff.1 he
  · exact hr (by simp)
  · cases a with
    | nil =>
      rw [List.nil_append] at ha
      exact hr (ha ▸ List.mem_cons_self)
    | cons c a =>
      obtain ⟨rfl, -⟩ := List.cons.inj ha
      have hread := read_eq_some_iff.2 ⟨inner, a, hbrace, hline, hcs, rfl⟩
      cases h.symm.trans hread

end Inline

/-! ## Heads with line ends behind -/

section

variable {t : Tag} {cs rest ends : List Char}

/-- Line ends make a tag of its name only. -/
theorem Tag.eq_opener_of_strip (he : LineEnds ends) (h : t.strip cs = none)
    (hs : t.strip (cs ++ ends) = some rest) : cs = t.opener := by
  obtain ⟨c, r, hc, -, heq⟩ := strip_eq_some_iff.1 hs
  obtain ⟨a, hopener, hends⟩ | ⟨a, rfl, ha⟩ := List.append_eq_append_iff.1 heq
  · cases a with
    | nil => simpa using hopener.symm
    | cons d a =>
      -- the name would go on with a line end
      have hd : d ∈ t.opener := by simp [hopener]
      have hplain : '\r' ∉ t.opener ∧ '\n' ∉ t.opener := by cases t <;> decide
      rcases he d (by simp [hends]) with rfl | rfl
      · exact absurd hd hplain.1
      · exact absurd hd hplain.2
  · cases a with
    | nil => rw [List.append_nil]
    | cons d a =>
      obtain ⟨rfl, -⟩ := List.cons.inj ha
      cases h.symm.trans (t.strip_opener hc a)

namespace Construct

theorem tagHead_eq_some_iff : tagHead cs = some (t, rest) ↔ t.strip cs = some rest := by
  constructor
  · intro h
    obtain ⟨u, -, hu⟩ := List.exists_of_findSome?_eq_some h
    obtain ⟨r, hr, he⟩ := Option.map_eq_some_iff.1 hu
    cases he
    exact hr
  · intro h
    obtain ⟨c, r, hc, rfl, rfl⟩ := Tag.strip_eq_some_iff.1 h
    exact tagHead_opener t hc r

/-- The head with more text behind it. -/
def Head.append (rest : List Char) : Head → Head
  | .inline i => .inline { i with after := i.after ++ rest }
  | .tag t behind => .tag t (behind ++ rest)

variable {head : Head} {before : List Char}

theorem head?_of_eq_some (h : head? cs = some head) (rest : List Char) :
    head? (cs ++ rest) = some (head.append rest) := by
  cases head with
  | tag t behind =>
    have hstrip := tagHead_eq_some_iff.2 (Tag.strip_append (strip_of_head? h) rest)
    rw [head?, hstrip]
    rfl
  | inline i =>
    have hread := Inline.read_of_eq_some (read_of_head? h) rest
    have htag : tagHead (cs ++ rest) = none := by
      refine Option.eq_none_iff_forall_ne_some.2 fun p hp => ?_
      cases (read_of_tagHead hp).symm.trans hread
    rw [head?, htag, hread]
    rfl

theorem head?_of_eq_none (he : LineEnds ends) (h : head? cs = none)
    (hopen : ∀ t : Tag, cs ≠ t.opener) : head? (cs ++ ends) = none := by
  have hread : Inline.read cs = none := by
    rw [head?] at h
    split at h
    · cases h
    · exact Option.map_eq_none_iff.1 h
  have htag : tagHead (cs ++ ends) = none := by
    refine Option.eq_none_iff_forall_ne_some.2 fun p hp => ?_
    have hstrip := tagHead_eq_some_iff.1 hp
    exact hopen p.1 (Tag.eq_opener_of_strip he (strip_of_head?_eq_none p.1 h) hstrip)
  rw [head?, htag, Inline.read_of_eq_none hread (he.not_mem (by decide))]
  rfl

theorem findHead_of_eq_some (he : LineEnds ends) (h : findHead cs = some (before, head)) :
    findHead (cs ++ ends) = some (before, head.append ends) := by
  induction cs generalizing before with
  | nil => cases h
  | cons c cs ih =>
    rw [findHead] at h
    split at h
    · rename_i hh
      cases h
      exact findHead_cons (head?_of_eq_some hh ends)
    · rename_i hnone
      obtain ⟨p, hp, hq⟩ := Option.map_eq_some_iff.1 h
      cases hq
      -- a head stands behind `c`, and there is none in the name of a tag
      have hopen (t : Tag) : c :: cs ≠ t.opener := by
        intro hc
        cases hc
        have hword : findHead t.word = none := by cases t <;> rfl
        cases hword.symm.trans hp
      have hhead := head?_of_eq_none he hnone hopen
      rw [List.cons_append] at hhead
      rw [List.cons_append, findHead, hhead, ih hp]
      rfl

theorem findHead_of_eq_none (he : LineEnds ends) (h : findHead cs = none)
    (hopen : ∀ t : Tag, ¬ t.opener <:+ cs) : findHead (cs ++ ends) = none := by
  induction cs with
  | nil =>
    have hplain : Plain ends := by
      intro w hw hi
      have hall : ∀ w ∈ marks, '<' ∈ w ∨ '$' ∈ w := by decide
      rcases hall w hw with hm | hm
      · exact he.not_mem (by decide) (hi.subset hm)
      · exact he.not_mem (by decide) (hi.subset hm)
    have hends := findHead_append hplain boundary_nil
    rw [List.append_nil] at hends
    exact hends
  | cons c cs ih =>
    rw [findHead] at h
    split at h
    · cases h
    · rename_i hnone
      have hcs := ih (Option.map_eq_none_iff.1 h) fun t ht =>
        hopen t (ht.trans (List.suffix_cons c cs))
      have hhead := head?_of_eq_none he hnone fun t ht => hopen t (ht ▸ List.suffix_rfl)
      rw [List.cons_append] at hhead
      rw [List.cons_append, findHead, hhead, hcs]
      rfl

/-- The name of a tag at the end of a text becomes a tag. -/
theorem findHead_opener (he : LineEnds ends) (hne : ends ≠ [])
    (h : findHead (before ++ t.opener) = none) :
    findHead (before ++ t.opener ++ ends) = some (before, .tag t ends) := by
  have hhead : head? (t.opener ++ ends) = some (.tag t ends) := by
    obtain ⟨c, r, rfl⟩ := List.exists_cons_of_ne_nil hne
    have hc : Tag.endsName c = true := by
      rcases he c List.mem_cons_self with rfl | rfl <;> decide
    rw [head?, tagHead_opener t hc]
  induction before with
  | nil => exact findHead_cons hhead
  | cons c before ih =>
    rw [List.cons_append, findHead] at h
    split at h
    · cases h
    · rename_i hnone
      have hbefore := ih (Option.map_eq_none_iff.1 h)
      -- a name has no other name at its end
      have hopen (u : Tag) : c :: (before ++ t.opener) ≠ u.opener := by
        intro hu
        obtain ⟨-, hword⟩ := List.cons.inj hu
        have hm : '<' ∈ u.word := hword ▸ List.mem_append_right _ List.mem_cons_self
        exact not_mem_word u hm
      have hhead := head?_of_eq_none he hnone hopen
      rw [List.cons_append] at hhead
      rw [List.cons_append, List.cons_append, findHead, hhead, hbefore]
      rfl

/-! ## Constructs with line ends behind -/

/-- The construct with more text behind it. -/
def append (rest : List Char) (k : Construct) : Construct := { k with after := k.after ++ rest }

variable {here : Location} {k : Construct}

/-- A construct that is found is found if line ends follow the text. -/
theorem next_append (he : LineEnds ends) (h : next here cs = .ok (some k)) :
    next here (cs ++ ends) = .ok (some (k.append ends)) := by
  rw [found_iff] at h ⊢
  cases h with
  | inline hh => exact .inline (findHead_of_eq_some he hh)
  | single hh hs hc =>
    exact .single (findHead_of_eq_some he hh) (splitOpening_of_eq_some hs ends) hc
  | container hh hs ht hc hf =>
    exact .container (findHead_of_eq_some he hh) (splitOpening_of_eq_some hs ends) ht hc
      (findCloser_of_eq_ok hf ends)

/-- The last character of a construct is that of its closing. -/
theorem extent_eq_concat (h : next here cs = .ok (some k)) :
    ∃ x d, k.extent = x ++ [d] ∧ d ∈ ['>', '}'] := by
  cases hk : k.kind with
  | inline =>
    obtain ⟨inner, hextent, -⟩ := extent_of_inline h hk
    exact ⟨'$' :: '{' :: inner, '}', hextent, by decide⟩
  | tag t =>
    obtain ⟨inner, -, hopening, ⟨-, hbody, hclosing⟩ | ⟨-, -, hclosing⟩⟩ := pieces_of_tag h hk
    · exact ⟨t.opener ++ inner, '>', by simp [extent, hopening, hbody, hclosing, Tag.openTag],
        by decide⟩
    · exact ⟨k.opening ++ k.body ++ '<' :: '/' :: t.word, '>',
        by simp [extent, hclosing, Tag.closer], by decide⟩

/-- The name of a tag at the end of a text stands behind every construct. -/
theorem opener_isSuffix_after (h : next here cs = .ok (some k)) (ht : t.opener <:+ cs) :
    t.opener <:+ k.after := by
  obtain ⟨x, d, hextent, hd⟩ := extent_eq_concat h
  have hcs : k.after <:+ cs := ⟨k.before ++ k.extent, (next_eq h).1.symm⟩
  rcases List.suffix_or_suffix_of_suffix ht hcs with hle | ⟨a, ha⟩
  · exact hle
  · rcases List.eq_nil_or_concat a with rfl | ⟨a, e, rfl⟩
    · exact ha ▸ List.suffix_rfl
    · -- the last character of the construct would belong to the name
      obtain ⟨z, hz⟩ := ht
      rw [(next_eq h).1, hextent, ← ha] at hz
      have hde : z ++ (a ++ [e]) = k.before ++ (x ++ [d]) := by
        refine List.append_cancel_right (?_ : _ ++ k.after = _ ++ k.after)
        simpa using hz
      have he : e = d := by
        simp only [← List.append_assoc] at hde
        exact (List.append_inj' hde rfl).2 |> List.cons.inj |>.1
      have hm : e ∈ t.opener := by simp [← ha]
      have hplain : '>' ∉ t.opener ∧ '}' ∉ t.opener := by cases t <;> decide
      subst he
      rcases List.mem_cons.1 hd with rfl | hd
      · exact absurd hm hplain.1
      · exact absurd (List.mem_singleton.1 hd ▸ hm) hplain.2

end Construct

end

/-! ## Neighbouring texts -/

/-- A block in front of others. A text is joined to a text that stands first among these. -/
def joinText : Block → List Block → List Block
  | .text l content, .text _ more :: blocks => .text l (content ++ more) :: blocks
  | block, blocks => block :: blocks

/-- The blocks with neighbouring texts joined to one. -/
def joinTexts : List Block → List Block
  | [] => []
  | block :: blocks => joinText block (joinTexts blocks)

section

variable {blocks others : List Block} {f : Location → Location} {here : Location}
  {x y : List Char}

theorem joinTexts_append_congr (h : joinTexts blocks = joinTexts others) (before : List Block) :
    joinTexts (before ++ blocks) = joinTexts (before ++ others) := by
  induction before with
  | nil => exact h
  | cons block before ih => exact congrArg (joinText block) ih

theorem joinTexts_textBlock : joinTexts (textBlock here x) = textBlock here x := by
  cases x <;> rfl

/-- Two texts of which the second one stands behind the first one are joined to one. -/
theorem joinTexts_textBlock_append :
    joinTexts (textBlock here x ++ textBlock (here.after x) y) = textBlock here (x ++ y) := by
  cases x with
  | nil => cases y <;> rfl
  | cons c x =>
    cases y with
    | nil => simp [textBlock, joinTexts, joinText]
    | cons d y =>
      rw [← List.append_nil (textBlock _ (d :: y)), List.cons_append]
      simp only [textBlock, List.isEmpty_cons, Bool.false_eq_true, if_false, List.cons_append,
        List.nil_append, joinTexts, joinText, ← String.ofList_append]

theorem joinText_mapLocations (block : Block) :
    joinText (block.mapLocation f) (mapLocations f blocks) =
      mapLocations f (joinText block blocks) := by
  cases block with
  | text l content =>
    cases blocks with
    | nil => rfl
    | cons other blocks => cases other <;> rfl
  | inline | loop | cond | static | inclusion => rfl

/-- Where the blocks stand makes no difference to what is joined. -/
theorem joinTexts_mapLocations (f : Location → Location) (blocks : List Block) :
    joinTexts (mapLocations f blocks) = mapLocations f (joinTexts blocks) := by
  induction blocks with
  | nil => rfl
  | cons block blocks ih =>
    rw [mapLocations, joinTexts, ih, joinText_mapLocations, joinTexts]

end

/-! ## Blocks with line ends behind -/

section

variable {o : ParseOptions} {depth : Nat} {here : Location} {t : Tag}
  {cs ends before : List Char} {blocks : List Block}

/-- Line ends behind a text are read as one more text, which is joined to a text before it. -/
theorem parseBlocks_append (he : LineEnds ends) (hopen : ∀ t : Tag, ¬ t.opener <:+ cs)
    (h : parseBlocks o depth here cs = .ok blocks) :
    ∃ more, parseBlocks o depth here (cs ++ ends) = .ok more ∧
      joinTexts more = joinTexts (blocks ++ textBlock (here.after cs) ends) := by
  -- what follows a construct is shorter than the text
  induction hl : cs.length using Nat.strongRecOn generalizing here cs blocks with
  | ind n ih =>
    subst hl
    obtain ⟨hn, rfl⟩ | ⟨k, block, rest, hn, hread, hr, rfl⟩ := parseBlocks_inv h
    · have hhead := Construct.findHead_of_eq_none he (Construct.next_eq_none_iff.1 hn) hopen
      refine ⟨_, parseBlocks_none (Construct.next_eq_none_iff.2 hhead), ?_⟩
      rw [joinTexts_textBlock, joinTexts_textBlock_append]
    · have hafter : k.after <:+ cs := ⟨k.before ++ k.extent, (Construct.next_eq hn).1.symm⟩
      obtain ⟨more, hmore, hjoin⟩ := ih _ (Construct.length_after_lt hn)
        (fun t ht => hopen t (ht.trans hafter)) hr rfl
      have hblock : readBlock o depth here (k.append ends) = .ok block := hread
      refine ⟨textBlock here k.before ++ block :: more, ?_, ?_⟩
      · rw [parseBlocks_some (Construct.next_append he hn) hblock]
        show (parseBlocks o depth (k.afterLocation here) (k.after ++ ends)).map _ = _
        rw [hmore]
        rfl
      · have hplace : here.after cs = (k.afterLocation here).after k.after := by
          rw [(Construct.next_eq hn).1, List.append_assoc, Location.after_append,
            Location.after_append]
          rfl
        rw [hplace, List.append_assoc]
        exact joinTexts_append_congr (joinTexts_append_congr hjoin [block]) _

/-- The name of a tag at the end of a text is read as a tag, which nothing ends. -/
theorem parseBlocks_append_opener (he : LineEnds ends) (hne : ends ≠ [])
    (h : parseBlocks o depth here (before ++ t.opener) = .ok blocks) :
    parseBlocks o depth here (before ++ t.opener ++ ends) =
      .error (.malformedTag t .openEnded (here.after before)) := by
  -- what follows a construct is shorter than the text
  induction hl : before.length using Nat.strongRecOn generalizing here before blocks with
  | ind n ih =>
    subst hl
    obtain ⟨hn, -⟩ | ⟨k, block, rest, hn, hread, hr, -⟩ := parseBlocks_inv h
    · have hhead := Construct.findHead_opener he hne (Construct.next_eq_none_iff.1 hn)
      refine parseBlocks_error ?_
      rw [Construct.next, hhead]
      show (Construct.ofTag here before t ends).map some = _
      rw [Construct.ofTag, splitOpening_lineEnds he]
      rfl
    · obtain ⟨x, hx⟩ := Construct.opener_isSuffix_after hn ⟨before, rfl⟩
      have hbefore : before = k.before ++ k.extent ++ x := by
        refine List.append_cancel_right (?_ : _ ++ t.opener = _ ++ t.opener)
        rw [(Construct.next_eq hn).1, ← hx]
        simp only [List.append_assoc]
      have hextent : k.extent ≠ [] := by
        obtain ⟨y, d, hextent, -⟩ := Construct.extent_eq_concat hn
        simp [hextent]
      rw [← hx] at hr
      have hrest := ih x.length (by
        have := List.length_pos_iff.2 hextent
        rw [hbefore]
        simp only [List.length_append]
        omega) hr rfl
      have hblock : readBlock o depth here (k.append ends) = .ok block := hread
      rw [parseBlocks_some (Construct.next_append he hn) hblock]
      show (parseBlocks o depth (k.afterLocation here) (k.after ++ ends)).map _ = _
      rw [← hx, hrest, hbefore, List.append_assoc, Location.after_append, Location.after_append]
      rfl

end

end Stencil.Markup
