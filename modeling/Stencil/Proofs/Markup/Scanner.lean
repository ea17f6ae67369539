import Stencil.Proofs.Markup.AttributeList
import Stencil.Proofs.Markup.InlineSearch
import Stencil.Proofs.Markup.Location

/-!
# The search by byte offsets is safe

Each step of the search by byte offsets is compared with the step of the search that reads texts.
Where a text stands in a range (`Stands`), the slice that is taken there is this text, and so both
find the same: the end of an opening tag (`openTag?_some`), a closing tag (`closingTag?_eq`), the
attributes of a tag (`attributes?_eq`) and the first construct (`nextBlock?_eq`).

* The search for the end of an opening tag looks at single bytes. Behind a backslash it may go on
  inside a character; no byte of this character can end the tag or a quote, so that it comes to the
  next character (`bracket?_inside`).
* The search for a closing tag goes on behind what it has found, and there a text begins again.
-/

namespace Stencil.Markup

open Stencil.Text

theorem findTag_eq_firstPlace (tags : List Tag) (cs : List Char) :
    findTag tags cs = firstPlace (fun ds => tags.find? fun t => (t.strip ds).isSome) cs := by
  induction cs with
  | nil =>
    rw [findTag, firstPlace, Option.map_eq_none_iff.2]
    exact List.find?_eq_none.2 fun t _ => Bool.false_ne_true
  | cons c cs ih =>
    rw [findTag, firstPlace, ih]
    cases tags.find? fun t => (t.strip (c :: cs)).isSome <;> rfl

/-- The tag that is found begins at its place. -/
theorem eq_of_findTag {tags : List Tag} {t : Tag} {cs lead : List Char}
    (h : findTag tags cs = some (lead, t)) : ∃ rest, cs = lead ++ (t.opener ++ rest) := by
  rw [findTag_eq_firstPlace] at h
  obtain ⟨y, rfl, hy, -⟩ := firstPlace_eq_some_iff.1 h
  obtain ⟨rest, hrest⟩ : ∃ rest, t.strip y = some rest :=
    Option.isSome_iff_exists.1 (by simpa using List.find?_some hy)
  exact ⟨rest, by rw [Tag.strip_eq hrest]⟩

namespace Scanner

/-! ## The end of an opening tag -/

section

variable {source : List Char} {limit pos : Nat} {quoted : Bool}

theorem bracket?_of_le (h : limit ≤ pos) : bracket? source limit quoted pos = some none := by
  rw [bracket?, if_neg (Nat.not_lt.2 h)]

theorem bracket?_step (hpos : pos < limit) {b : Char} (hb : peek source pos = some b) :
    bracket? source limit quoted pos =
      if b = '\\' && quoted then bracket? source limit quoted (pos + 2)
      else if b = '\x27' then bracket? source limit (!quoted) (pos + 1)
      else if b = '>' && !quoted then some (some pos)
      else bracket? source limit quoted (pos + 1) := by
  rw [bracket?, if_pos hpos, hb]

/-- The search passes over bytes that are no ASCII characters. -/
theorem bracket?_of_le_toNat {b : Char} (hb : peek source pos = some b) (h : 128 ≤ b.toNat) :
    bracket? source limit quoted pos = bracket? source limit quoted (pos + 1) := by
  have hne {d : Char} (hd : d.toNat < 128) : b ≠ d := by
    rintro rfl
    omega
  rcases Nat.lt_or_ge pos limit with hpos | hpos
  · rw [bracket?_step hpos hb]
    simp [hne (d := '\\') (by decide), hne (d := '\x27') (by decide), hne (d := '>') (by decide)]
  · rw [bracket?_of_le hpos, bracket?_of_le (Nat.le_succ_of_le hpos)]

/-- From a byte inside a character the search comes to the next character. -/
theorem bracket?_inside (before cs : List Char) {c : Char} {n : Nat} (hpos : 0 < n)
    (hn : n ≤ c.utf8Size) :
    bracket? (before ++ c :: cs) limit quoted (utf8Length before + n) =
      bracket? (before ++ c :: cs) limit quoted (utf8Length before + c.utf8Size) := by
  induction hk : c.utf8Size - n generalizing n with
  | zero =>
    obtain rfl : n = c.utf8Size := by omega
    rfl
  | succ k ih =>
    obtain ⟨d, hd, hle⟩ := peek_inside before cs hpos (show n < c.utf8Size by omega)
    rw [bracket?_of_le_toNat hd hle]
    exact ih (Nat.succ_pos n) (by omega) (by omega)

/-- The search by bytes finds the end that the search by characters finds. -/
theorem bracket?_eq {before cs : List Char} (hlimit : limit ≤ utf8Length (before ++ cs)) :
    bracket? (before ++ cs) limit quoted (utf8Length before) =
      some (openingEnd limit quoted (utf8Length before) cs) := by
  generalize hpos : utf8Length before = pos
  fun_induction openingEnd limit quoted pos cs generalizing before with
  | case1 pos quoted =>
    rw [List.append_nil] at hlimit
    exact bracket?_of_le (hpos ▸ hlimit)
  | case2 pos c cs hle => exact bracket?_of_le hle
  | case3 pos c cs hlt ih =>
    -- the byte behind the backslash may be inside the character that it hides
    subst hpos
    have hinside : bracket? _ limit true _ = bracket? _ limit true _ :=
      bracket?_inside (before ++ ['\\']) cs Nat.one_pos c.utf8Size_pos
    have hrest := @ih (before ++ ['\\', c]) (by simpa using hlimit)
      (by simp [Nat.add_assoc, show '\\'.utf8Size = 1 from rfl])
    simp only [List.append_assoc, List.cons_append, List.nil_append, utf8Length_append,
      utf8Length_cons, utf8Length_nil, show '\\'.utf8Size = 1 from rfl] at hinside hrest
    rw [bracket?_step (Nat.lt_of_not_le hlt) (peek_of_lt before _ (by decide)),
      if_pos (show (decide ('\\' = '\\') && true) = true from rfl)]
    exact hinside.trans hrest
  | case4 quoted pos c cs _ hle => exact bracket?_of_le hle
  | case5 quoted pos cs hlt _ ih =>
    subst hpos
    have hrest := @ih (before ++ ['\x27']) (by simpa using hlimit)
      (by simp [show '\x27'.utf8Size = 1 from rfl])
    rw [List.append_assoc, List.singleton_append] at hrest
    rw [bracket?_step (Nat.lt_of_not_le hlt) (peek_of_lt before _ (by decide))]
    simpa using hrest
  | case6 quoted pos c cs hmore hlt hquote hend =>
    subst hpos
    obtain ⟨hc, hq⟩ := Bool.and_eq_true_iff.1 hend
    obtain rfl := of_decide_eq_true hc
    rw [bracket?_step (Nat.lt_of_not_le hlt) (peek_of_lt before _ (by decide))]
    simp [hq]
  | case7 quoted pos c cs hmore hlt hquote hend ih =>
    subst hpos
    have hrest := @ih (before ++ [c]) (by simpa using hlimit) (by simp)
    rw [List.append_assoc, List.singleton_append] at hrest
    rcases Nat.lt_or_ge c.toNat 128 with hc | hc
    · rw [bracket?_step (Nat.lt_of_not_le hlt) (peek_of_lt before _ hc), if_neg hquote,
        if_neg hend, ← hrest, utf8Size_of_lt hc]
      split
      · -- a backslash at the end of the source hides nothing
        rename_i hand
        simp only [Bool.and_eq_true, decide_eq_true_eq] at hand
        obtain rfl : cs = [] := by
          cases cs with
          | nil => rfl
          | cons d ds => exact absurd rfl (hmore d ds hand.2 hand.1)
        rw [utf8Length_append, utf8Length_cons, utf8Size_of_lt hc, utf8Length_nil] at hlimit
        rw [bracket?_of_le (by omega), bracket?_of_le (by omega)]
      · rfl
    · have hpeek := peek_utf8Length before (c :: cs)
      rw [bracket?_of_le_toNat hpeek (le_lead hc), ← hrest]
      exact bracket?_inside before cs Nat.one_pos c.utf8Size_pos

end

/-! ## The begin of a tag -/

/-- Whether a tag of this kind begins at an angle bracket, by the text behind it. -/
theorem isSome_strip_cons (t : Tag) (cs : List Char) :
    (t.strip ('<' :: cs)).isSome = (stripWord t.word cs).any fun rest =>
      rest.head?.any Tag.endsName := by
  rw [Tag.strip, Tag.opener, stripWord, if_pos rfl]
  cases stripWord t.word cs with
  | none => rfl
  | some rest =>
    cases rest with
    | nil => rfl
    | cons c rest => cases h : Tag.endsName c <;> simp [h]

theorem kindOf?_eq (rest : List Char) (tags : List Tag) :
    kindOf? rest tags = some (tags.find? fun t => (t.strip ('<' :: rest)).isSome) := by
  induction tags with
  | nil => rfl
  | cons t tags ih =>
    rw [kindOf?, List.find?_cons, isSome_strip_cons, ih]
    cases hword : stripWord t.word rest with
    | none => rfl
    | some behind =>
      have hslice := slice?_append t.word behind []
      rw [List.append_nil, ← stripWord_eq hword] at hslice
      rw [Option.isSome_some, if_pos rfl, hslice, Option.bind_some, Option.any_some]
      cases behind.head?.any Tag.endsName <;> rfl

/-- No tag begins at another character. -/
theorem find?_strip_of_ne {c : Char} (h : c ≠ '<') (cs : List Char) (tags : List Tag) :
    (tags.find? fun t => (t.strip (c :: cs)).isSome) = none := by
  refine List.find?_eq_none.2 fun t _ => ?_
  rw [Tag.strip, Tag.opener, stripWord, if_neg (Ne.symm h)]
  exact Bool.false_ne_true

theorem tagFrom?_eq (tags : List Tag) (before cs : List Char) :
    tagFrom? tags (before ++ cs) (utf8Length before) cs =
      some ((findTag tags cs).map fun p => (utf8Length (before ++ p.1), p.2)) := by
  induction cs generalizing before with
  | nil => rfl
  | cons c cs ih =>
    have hrest := ih (before ++ [c])
    rw [List.append_assoc, List.singleton_append, utf8Length_append, utf8Length_cons,
      utf8Length_nil, Nat.add_zero] at hrest
    rw [tagFrom?, findTag]
    split
    · rename_i hc
      subst hc
      have hslice := slice?_append (before ++ ['<']) cs []
      rw [List.append_nil, List.append_assoc, List.singleton_append, utf8Length_append,
        show utf8Length ['<'] = 1 from rfl] at hslice
      rw [hslice, Option.bind_some, kindOf?_eq, Option.bind_some]
      cases tags.find? fun t => (t.strip ('<' :: cs)).isSome with
      | some t => simp
      | none =>
        dsimp only
        rw [hrest]
        simp [Function.comp_def]
    · rename_i hc
      rw [find?_strip_of_ne hc, hrest]
      simp [Function.comp_def]

section

variable {source text : List Char} {start stop : Nat}

theorem slice?_stands (h : Stands source start text stop) : slice? start stop source = some text :=
  slice?_eq_some_iff.2 h

/-- The first tag of a range is the first one of the text in it. -/
theorem tagIn?_eq (h : Stands source start text stop) (tags : List Tag) :
    tagIn? source tags start stop =
      some ((findTag tags text).map fun p => (start + utf8Length p.1, p.2)) := by
  have htags := tagFrom?_eq tags [] text
  rw [List.nil_append, utf8Length_nil] at htags
  rw [tagIn?, slice?_stands h, Option.bind_some, htags, Option.map_some, Option.map_map]
  rfl

theorem isBoundary_of_stands (h : Stands source start text stop) :
    isBoundary start source = true ∧ isBoundary stop source = true :=
  isBoundary_of_slice? (slice?_stands h)

/-! ## Opening tags -/

/-- The opening tag that the search by offsets finds, by its end and the text in it. -/
def openTag (t : Tag) (start stop : Nat) (inner : List Char) : OpenTag :=
  let first := start + utf8Length t.opener
  ⟨stop + 1, first, first + utf8Length (attributeText inner), isSelfClosing inner⟩

theorem utf8Length_opener (t : Tag) : utf8Length t.opener = 1 + utf8Length t.word := rfl

/-- The end of the attribute list of an opening tag, counted from its text. -/
theorem utf8Length_attributeText (inner : List Char) (first : Nat) :
    (if isSelfClosing inner then first + utf8Length (trimEnd inner) - 1
      else first + utf8Length inner) = first + utf8Length (attributeText inner) := by
  unfold attributeText
  split
  · rename_i h
    obtain ⟨xs, hxs⟩ := List.getLast?_eq_some_iff.1 (of_decide_eq_true h)
    rw [hxs, List.dropLast_concat, utf8Length_append, show utf8Length ['/'] = 1 from rfl]
    omega
  · rfl

variable {t : Tag} {rest inner tail : List Char} {limit pending owner pos : Nat}

theorem bracket?_opener (h : Stands source start (t.opener ++ rest) limit) :
    bracket? source limit false (start + utf8Length t.opener) =
      some ((splitOpening false rest).map fun p =>
        start + utf8Length t.opener + utf8Length p.1) := by
  obtain ⟨before, after, rfl, rfl, rfl⟩ := h
  have hsource : before ++ (t.opener ++ rest) ++ after = before ++ t.opener ++ (rest ++ after) := by
    simp only [List.append_assoc]
  rw [hsource, utf8Length_append, ← Nat.add_assoc, ← utf8Length_append,
    bracket?_eq (by simp only [utf8Length_append]; omega), openingEnd_append]

theorem openTag?_none (h : Stands source start (t.opener ++ rest) limit)
    (hs : splitOpening false rest = none) :
    openTag? source t limit start =
      some (.error (.malformedTag t .openEnded (Location.ofOffset source start))) := by
  have hbracket := bracket?_opener h
  rw [utf8Length_opener, ← Nat.add_assoc, hs] at hbracket
  rw [openTag?, hbracket]
  dsimp only [Option.map_none, Option.bind_some]
  rw [location?_eq (isBoundary_of_stands h).1]
  rfl

theorem openTag?_some (h : Stands source start (t.opener ++ rest) limit)
    (hs : splitOpening false rest = some (inner, tail)) :
    openTag? source t limit start =
      some (.ok (openTag t start (start + utf8Length t.opener + utf8Length inner) inner)) := by
  have hbracket := bracket?_opener h
  have hrest := h.append.2
  rw [splitOpening_eq hs] at hrest
  have hraw := slice?_stands hrest.append.1
  have hattributes := utf8Length_attributeText inner (start + utf8Length t.opener)
  rw [utf8Length_opener, ← Nat.add_assoc] at hbracket hraw hattributes
  rw [hs] at hbracket
  rw [openTag?, hbracket]
  dsimp only [Option.map_some, Option.bind_some]
  rw [hraw, Option.map_some, openTag, utf8Length_opener, ← Nat.add_assoc, ← hattributes]
  simp only [isSelfClosing, decide_eq_true_eq]

/-! ## Closing tags -/

theorem openingStop_stands (h : Stands source start (t.opener ++ rest) limit) :
    openingStop source t limit start =
      match splitOpening false rest with
      | none => .error (.malformedTag t .openEnded (Location.ofOffset source start))
      | some (inner, _) => .ok (start + utf8Length t.opener + utf8Length inner) := by
  have hstop := openingStop_eq h.standsAt
  rwa [h.offset_ofOffset] at hstop

theorem openingInner_stands (h : Stands source start (t.opener ++ (inner ++ tail)) limit) :
    openingInner source t start (start + utf8Length t.opener + utf8Length inner) = inner := by
  have hinner := openingInner_eq h.standsAt
  rwa [h.offset_ofOffset] at hinner

section

variable {before after : List Char}

theorem closingTag?_none (h : slice? pos limit source = some text)
    (hs : splitAtWord t.closer text = none) :
    closingTag? source t owner limit pending pos =
      (location? source owner).map fun l => .error (.malformedTag t .unclosed l) := by
  rw [closingTag?]
  split
  · rename_i h'
    cases h.symm.trans h'
  · rename_i h'
    cases h.symm.trans h'
    split
    · rfl
    · rename_i hs'
      cases hs.symm.trans hs'

theorem closingTag?_opened {start : Nat} {u : Tag} (h : slice? pos limit source = some text)
    (hs : splitAtWord t.closer text = some (before, after))
    (hf : tagIn? source [t] pos (pos + utf8Length before) = some (some (start, u))) :
    closingTag? source t owner limit pending pos =
      match openTag? source t limit start with
      | none => none
      | some (.error e) => some (.error e)
      | some (.ok o) => closingTag? source t owner limit
          (if o.selfClosing then pending else pending + 1) o.stop := by
  conv => lhs; rw [closingTag?]
  split
  · rename_i h'
    cases h.symm.trans h'
  · rename_i h'
    cases h.symm.trans h'
    split
    · rename_i hs'
      cases hs.symm.trans hs'
    · rename_i hs'
      cases hs.symm.trans hs'
      dsimp only
      split <;> rename_i hf' <;> cases hf.symm.trans hf'
      split <;> rename_i ho <;> rw [ho]

theorem closingTag?_closed (h : slice? pos limit source = some text)
    (hs : splitAtWord t.closer text = some (before, after))
    (hf : tagIn? source [t] pos (pos + utf8Length before) = some none) :
    closingTag? source t owner limit pending pos =
      match pending with
      | 0 => some (.ok (pos + utf8Length before, pos + utf8Length before + utf8Length t.closer))
      | pending + 1 => closingTag? source t owner limit pending
          (pos + utf8Length before + utf8Length t.closer) := by
  conv => lhs; rw [closingTag?]
  split
  · rename_i h'
    cases h.symm.trans h'
  · rename_i h'
    cases h.symm.trans h'
    split
    · rename_i hs'
      cases hs.symm.trans hs'
    · rename_i hs'
      cases hs.symm.trans hs'
      dsimp only
      split <;> rename_i hf' <;> cases hf.symm.trans hf'
      rfl

end

/-- The search by offsets for a closing tag finds the one that the search in texts finds. -/
theorem closingTag?_eq (h : Stands source pos text limit)
    (howner : isBoundary owner source = true) :
    closingTag? source t owner limit pending pos =
      some (closingExtent source t owner limit pending pos) := by
  -- the search goes on in a shorter text
  induction hn : text.length using Nat.strongRecOn generalizing text pos pending with
  | ind n ih =>
    subst hn
    have hslice := slice?_stands h
    cases hs : splitAtWord t.closer text with
    | none =>
      rw [closingTag?_none hslice hs, closingExtent_none (by rw [h.window_eq, hs]),
        location?_eq howner]
      rfl
    | some p =>
      obtain ⟨before, after⟩ := p
      have hin : splitAtWord t.closer (window pos limit source) = some (before, after) := by
        rw [h.window_eq, hs]
      have htext := splitAtWord_eq hs
      rw [htext, List.append_assoc] at h
      have hbefore := h.append.1
      have htag := tagIn?_eq hbefore [t]
      rw [findTag_singleton] at htag
      cases hf : t.find? before with
      | none =>
        have hnone : findTag [t] (window pos (pos + utf8Length before) source) = none := by
          rw [hbefore.window_eq, findTag_singleton, hf]
          rfl
        rw [hf] at htag
        rw [closingTag?_closed hslice hs htag]
        cases pending with
        | zero => rw [closingExtent_zero hin hnone]
        | succ pending =>
          rw [closingExtent_succ hin hnone]
          refine ih after.length ?_ h.append.2.append.2 rfl
          rw [htext]
          simp [Tag.closer]
          omega
      | some q =>
        obtain ⟨lead, rest⟩ := q
        have hsome : findTag [t] (window pos (pos + utf8Length before) source) =
            some (lead, t) := by
          rw [hbefore.window_eq, findTag_singleton, hf]
          rfl
        rw [hf] at htag
        rw [closingTag?_opened hslice hs htag, closingExtent_some hin hsome]
        have hfound := Tag.find?_eq hf
        rw [hfound, List.append_assoc, List.append_assoc] at h
        have hopening := h.append.2
        rw [openingStop_stands hopening]
        cases hend : splitOpening false (rest ++ (t.closer ++ after)) with
        | none => rw [openTag?_none hopening hend]
        | some r =>
          obtain ⟨inner, tail⟩ := r
          rw [openTag?_some hopening hend]
          rw [splitOpening_eq hend] at hopening
          have htail := hopening.append.2.append.2
          have hlength := congrArg List.length (splitOpening_eq hend)
          dsimp only
          rw [openingInner_stands hopening]
          have hrest : tail.length < text.length := by
            rw [htext, hfound]
            simp only [List.length_append, List.length_cons] at hlength ⊢
            omega
          exact ih tail.length hrest (Stands.append (x := ['>']) htail).2 rfl

end

/-! ## Attributes -/

/-- A match of the pattern of attributes takes something. -/
theorem flatten_ne_nil_of_search {cs before : List Char} {m : Match}
    (h : Pattern.search Attributes.pattern cs = some (before, m)) : m.pieces.flatten ≠ [] := by
  obtain ⟨w, hw, -⟩ := Attributes.exists_text_of_search h
  obtain ⟨c, x, hc, -⟩ := w.exists_cons
  have htext : m.pieces.flatten ++ m.rest = w.text ++ m.rest :=
    List.append_cancel_left ((Pattern.eq_of_search h).symm.trans hw)
  rw [List.append_cancel_right htext, hc]
  exact List.cons_ne_nil c x

/-- The matches in the rest of a text are collected as in a text of their own. -/
theorem collect?_eq (before cs : List Char) :
    collect? (before ++ cs) (utf8Length before) (Pattern.searchAll Attributes.pattern cs).1 =
      some (Attributes.collect (utf8Length before = 0)
        (Pattern.searchAll Attributes.pattern cs)) := by
  induction hn : cs.length using Nat.strongRecOn generalizing before cs with
  | ind n ih =>
    subst hn
    cases hsearch : Pattern.search Attributes.pattern cs with
    | none =>
      have hslice := slice?_append before cs []
      rw [List.append_nil] at hslice
      rw [Pattern.searchAll_of_none hsearch, collect?, hslice, Attributes.collect]
      rfl
    | some p =>
      obtain ⟨skipped, m⟩ := p
      have hlt := Attributes.length_rest_of_search hsearch
      have hcs := Pattern.eq_of_search hsearch
      have hslice := slice?_append before skipped (m.pieces.flatten ++ m.rest)
      have hmore := ih m.rest.length hlt (before ++ (skipped ++ m.pieces.flatten)) m.rest rfl
      have hlater : ¬ utf8Length (before ++ (skipped ++ m.pieces.flatten)) = 0 := by
        have hpos := utf8Length_pos (flatten_ne_nil_of_search hsearch)
        simp only [utf8Length_append]
        omega
      have hwhole : before ++ (skipped ++ m.pieces.flatten) ++ m.rest = before ++ cs := by
        rw [hcs]
        simp only [List.append_assoc]
      rw [List.append_assoc, ← hcs] at hslice
      rw [hwhole, decide_eq_false hlater] at hmore
      rw [Pattern.searchAll_of_some hsearch hlt, collect?, Attributes.collect, ← utf8Length_append,
        hslice, Option.bind_some, ← utf8Length_append, List.append_assoc, hmore]
      split <;> rfl

theorem attributes?_eq (text : List Char) : attributes? text = some (Attributes.parse text) := by
  have hcollect := collect?_eq [] text
  rw [List.nil_append] at hcollect
  rw [← Attributes.search_eq_parse, attributes?, show 0 = utf8Length [] from rfl, hcollect]
  rfl

/-! ## Constructs -/

section

variable {source text rest : List Char} {t : Tag} {start limit stop pending pos : Nat}

theorem attributeText_isPrefix (inner : List Char) : attributeText inner <+: inner := by
  unfold attributeText
  split
  · exact (List.dropLast_prefix _).trans ⟨_, trimEnd_append_trailingBlanks inner⟩
  · exact List.prefix_refl inner

/-- The search for a closing tag in a range is the search in the text of the range. -/
theorem closingExtent_stands (h : Stands source pos text limit) {owner : Nat}
    (howner : isBoundary owner source = true) :
    closingExtent source t owner limit pending pos =
      (findCloser t (Location.ofOffset source owner) pending
        (Location.ofOffset source pos) text).map fun p =>
          (pos + utf8Length p.1, pos + utf8Length p.1 + utf8Length t.closer) := by
  obtain ⟨before, ⟨behind, hsource⟩, rfl⟩ := isBoundary_iff.1 howner
  have hplace : (Location.ofOffset source (utf8Length before)).offset = utf8Length before := by
    rw [← hsource, Location.ofOffset_utf8Length, Location.start_after_eq]
  have heq : closingExtent source t (Location.ofOffset source (utf8Length before)).offset limit
      pending _ = _ := closingExtent_eq h.standsAt (by rw [hplace])
  rwa [hplace, h.offset_ofOffset] at heq

theorem tagBlock?_eq (h : Stands source start (t.opener ++ rest) limit) :
    tagBlock? source t limit start = some (tagExtent source t limit start) := by
  rw [tagBlock?, tagExtent, openingStop_stands h]
  cases hs : splitOpening false rest with
  | none =>
    rw [openTag?_none h hs]
    rfl
  | some p =>
    obtain ⟨inner, tail⟩ := p
    rw [openTag?_some h hs]
    have howner := (isBoundary_of_stands h).1
    rw [splitOpening_eq hs] at h
    have hinner := h.append.2.append.1
    have htail : Stands source (start + utf8Length t.opener + utf8Length inner + 1) tail limit :=
      (Stands.append (x := ['>']) h.append.2.append.2).2
    obtain ⟨behind, hbehind⟩ := attributeText_isPrefix inner
    have hattributes := slice?_stands (Stands.append (y := behind) (hbehind.symm ▸ hinner)).1
    dsimp only [Option.bind_some]
    rw [openingInner_stands h, openTag]
    dsimp only
    rw [hattributes, Option.bind_some, attributes?_eq, Option.bind_some]
    split
    · rfl
    · rw [closingTag?_eq htail howner, Option.bind_some]
      cases hc : closingExtent source t start limit 0
          (start + utf8Length t.opener + utf8Length inner + 1) with
      | error e => rfl
      | ok p =>
        rw [closingExtent_stands htail howner] at hc
        obtain ⟨q, hq, rfl⟩ := map_eq_ok_iff.1 hc
        rw [findCloser_eq hq, List.append_assoc] at htail
        have hbody := htail.append.1
        dsimp only [Except.map]
        rw [slice?_stands hbody, hbody.window_eq]
        rfl

/-- Between two boundaries no slice is asked for that cannot be taken, and what is found is the
first construct. -/
theorem nextBlock?_eq (h : Stands source start text stop) :
    nextBlock? source start stop = some (nextExtent source start stop) := by
  have hinline : inline? source start stop =
      some ((Inline.find? text).map fun p => inlineExtent p.2 (start + utf8Length p.1)) := by
    rw [inline?, slice?_stands h, Option.map_some, Inline.searchIn?_eq, Inline.findIn?, h.slice_eq]
  have htagged {lead : List Char} {t : Tag} (hf : findTag Tag.all text = some (lead, t)) :
      tagBlock? source t stop (start + utf8Length lead) =
        some (tagExtent source t stop (start + utf8Length lead)) := by
    obtain ⟨rest, htext⟩ := eq_of_findTag hf
    exact tagBlock?_eq (htext ▸ h).append.2
  rw [nextBlock?, hinline, Option.bind_some, tagIn?_eq h, Option.bind_some, nextExtent, h.window_eq]
  cases hf : findTag Tag.all text with
  | none => cases Inline.find? text <;> rfl
  | some p =>
    obtain ⟨lead, t⟩ := p
    cases Inline.find? text with
    | none =>
      dsimp only [Option.map_some, Option.map_none]
      rw [htagged hf, Option.map_some]
    | some q =>
      simp only [Option.map_some, htagged hf, inlineExtent, Nat.add_lt_add_iff_left]
      split <;> rfl

end

end Scanner

end Stencil.Markup
