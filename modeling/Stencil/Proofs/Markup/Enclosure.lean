import Stencil.Proofs.Markup.Balance
import Stencil.Proofs.Markup.Moving
import Stencil.Proofs.Markup.RoundTrip

/-!
# A text enclosed in a tag

The search for the closing tag of a container does not read the constructs that it comes across. A
tag of the same kind is counted with all that is in its quotes, but in an inline expression and in
the tags of other kinds everything that looks like a tag of the kind counts as one. So what a
template is read as does not tell what it is read as between two tags (`enclosed_hiding`).

It does where the texts of the template hold no closing tag, and what is hidden in its expressions
and in the opening tags of other kinds (`markup`) is balanced: then a condition around the template
is read as one block with the blocks of the template in it, each moved by the length of the opening
tag (`parse_enclosed`).
-/

namespace Stencil.Markup

open Stencil.Text

/-! ## Texts and markup at every level -/

mutual

/-- The texts in a block, at every level. -/
def Block.texts : Block → List String
  | .text _ content => [content]
  | .inline _ _ => []
  | .loop _ _ _ _ _ body => Markup.texts body
  | .cond _ _ _ _ body => Markup.texts body
  | .static _ _ body => Markup.texts body
  | .inclusion _ _ _ => []

/-- The texts in blocks, at every level. -/
def texts : List Block → List String
  | [] => []
  | block :: blocks => block.texts ++ texts blocks

end

section

variable (blocks others : List Block)

@[simp] theorem texts_append : texts (blocks ++ others) = texts blocks ++ texts others := by
  induction blocks with
  | nil => rfl
  | cons block blocks ih => simp [texts, ih]

@[simp] theorem texts_block (header : Header) (place : Location) (attributes : Attributes)
    (raw : String) : (header.block place attributes raw blocks).texts = texts blocks := by
  cases header <;> rfl

end

namespace Construct

/-- The part of a construct that stands before its body: an inline expression as a whole, or an
opening tag. -/
def front (k : Construct) : List Char :=
  match k.kind with
  | .inline => k.extent
  | .tag _ => k.opening

/-- The part of a construct in which there are others. -/
def inside (k : Construct) : List Char :=
  match k.kind with
  | .inline => []
  | .tag _ => k.body

theorem length_inside_lt {here : Location} {cs : List Char} {k : Construct}
    (h : next here cs = .ok (some k)) : k.inside.length < cs.length := by
  obtain ⟨h, ho⟩ := next_eq h
  have := List.length_pos_iff.2 ho
  rw [h, inside]
  split <;> simp only [extent, List.length_append, List.length_nil] <;> omega

end Construct

/-- The inline expressions and the opening tags of a text, at every level. -/
def markup (cs : List Char) : List (Kind × List Char) :=
  match h : Construct.next Location.start cs with
  | .error _ => []
  | .ok none => []
  | .ok (some k) =>
    have := Construct.length_inside_lt h
    have := Construct.length_after_lt h
    (k.kind, k.front) :: (markup k.inside ++ markup k.after)
termination_by cs.length

theorem markup_some {here : Location} {cs : List Char} {k : Construct}
    (h : Construct.next here cs = .ok (some k)) :
    markup cs = (k.kind, k.front) :: (markup k.inside ++ markup k.after) := by
  have h : Construct.next Location.start cs = .ok (some k) := Construct.next_move h
  rw [markup]
  split
  · simp_all
  · simp_all
  · rename_i h'
    cases h.symm.trans h'
    rfl

/-! ## What stands around constructs -/

namespace Construct

section

variable {t : Tag} {here : Location} {cs before rest : List Char} {head : Head} {k : Construct}

theorem strip_of_head?_eq_none (t : Tag) (h : head? cs = none) : t.strip cs = none := by
  unfold head? at h
  split at h
  · cases h
  · rename_i ht
    have hall : t ∈ Tag.all := by cases t <;> decide
    exact Option.map_eq_none_iff.1 (List.findSome?_eq_none_iff.1 ht t hall)

theorem throughout_of_findHead_eq_none (h : findHead cs = none) :
    Throughout (head? · = none) cs [] := by
  induction cs with
  | nil => trivial
  | cons c cs ih =>
    unfold findHead at h
    split at h
    · cases h
    · rename_i hnone
      exact ⟨by rwa [List.append_nil], ih (Option.map_eq_none_iff.1 h)⟩

theorem throughout_of_findHead (h : findHead (before ++ rest) = some (before, head)) :
    Throughout (head? · = none) before rest := by
  induction before with
  | nil => trivial
  | cons c before ih =>
    unfold findHead at h
    dsimp only [List.cons_append] at h
    split at h
    · cases h
    · rename_i hnone
      obtain ⟨p, hp, he⟩ := Option.map_eq_some_iff.1 h
      cases he
      exact ⟨hnone, ih hp⟩

theorem Found.findHead (h : Found here cs k) :
    ∃ head, Construct.findHead cs = some (k.before, head) := by
  cases h with
  | inline hh => exact ⟨_, hh⟩
  | single hh => exact ⟨_, hh⟩
  | container hh => exact ⟨_, hh⟩

/-- No opening tag begins in the text before the first construct. -/
theorem free_before (hn : next here cs = .ok (some k)) (hc : ¬ t.closer <:+: k.before) :
    Free t k.before := by
  obtain ⟨head, hh⟩ := (found_iff.1 hn).findHead
  rw [(next_eq hn).1, List.append_assoc] at hh
  have hstrip := (throughout_of_findHead hh).mono fun _ => strip_of_head?_eq_none t
  exact ⟨hc, fun _ => opener_not_isInfix hstrip⟩

/-- No opening tag begins in a text without constructs. -/
theorem free_plain (hn : next here cs = .ok none) (hc : ¬ t.closer <:+: cs) : Free t cs := by
  have hh := throughout_of_findHead_eq_none (next_eq_none_iff.1 hn)
  have hstrip := hh.mono fun _ => strip_of_head?_eq_none t
  exact ⟨hc, fun _ => opener_not_isInfix hstrip⟩

/-- What stands before the body of a construct begins with an angle bracket or a dollar sign and ends
with an angle bracket or a brace. -/
theorem front_eq (hn : next here cs = .ok (some k)) :
    ∃ c x d, k.front = c :: (x ++ [d]) ∧ c ∈ ['<', '$'] ∧ d ∈ ['>', '}'] ∧
      k.front <+: k.extent := by
  cases hk : k.kind with
  | inline =>
    obtain ⟨inner, hextent, -⟩ := extent_of_inline hn hk
    have hfront : k.front = k.extent := by rw [front, hk]
    exact ⟨'$', '{' :: inner, '}', hfront.trans hextent, by decide, by decide,
      hfront ▸ List.prefix_rfl⟩
  | tag t =>
    obtain ⟨inner, -, hopening, -⟩ := pieces_of_tag hn hk
    have hfront : k.front = k.opening := by rw [front, hk]
    refine ⟨'<', t.word ++ inner, '>', hfront.trans hopening, by decide, by decide, ?_⟩
    rw [hfront, extent, List.append_assoc]
    exact List.prefix_append _ _

theorem getLast?_front (hn : next here cs = .ok (some k)) :
    ∀ c ∈ k.front.getLast?, c ∈ ['>', '}'] := by
  obtain ⟨_, _, _, hfront, -, hd, -⟩ := front_eq hn
  rw [hfront, ← List.cons_append, List.getLast?_concat]
  rintro _ ⟨⟩
  exact hd

theorem head?_extent (hn : next here cs = .ok (some k)) :
    ∀ c ∈ (k.extent ++ rest).head?, c ∈ ['<', '$'] := by
  obtain ⟨_, _, _, hfront, hc, -, body, hextent⟩ := front_eq hn
  rw [← hextent, hfront]
  rintro _ ⟨⟩
  exact hc

end

end Construct

/-! ## Templates are passed over -/

section

variable {o : ParseOptions} {t : Tag} {depth : Nat} {here : Location} {cs tail : List Char}
  {blocks : List Block}

theorem not_isInfix_of_texts {l : Location} (h : ∀ s ∈ texts (textBlock l cs),
    ¬ t.closer <:+: s.toList) : ¬ t.closer <:+: cs := by
  cases cs with
  | nil => exact fun hi => List.cons_ne_nil _ _ (List.infix_nil.1 hi)
  | cons c cs =>
    have := h (String.ofList (c :: cs)) (by simp [textBlock, texts, Block.texts])
    rwa [String.toList_ofList] at this

/-- A text is passed over if its first construct and what follows it are. -/
theorem skipped_of_next {k : Construct} (hn : Construct.next here cs = .ok (some k))
    (hbefore : ¬ t.closer <:+: k.before) (hextent : Skipped t k.extent (k.after ++ tail))
    (hafter : Skipped t k.after tail) : Skipped t cs tail := by
  have hfree := Construct.free_before hn hbefore
  rw [(Construct.next_eq hn).1]
  refine .append (.append (.of_passable (hfree.passable (.inl ?_))) hextent) hafter
  exact Construct.head?_extent hn

/-- A tag is passed over if its body is, and its opening tag if it is of another kind. -/
theorem skipped_extent {k : Construct} {u : Tag} (ht : t.isContainer = true)
    (hn : Construct.next here cs = .ok (some k)) (hk : k.kind = .tag u)
    (hfront : u ≠ t → Balanced t k.front) (hbody : Skipped t k.body (u.closer ++ tail)) :
    Skipped t k.extent tail := by
  obtain ⟨inner, hi, hopening, hpieces⟩ := Construct.pieces_of_tag hn hk
  have hother (hu : u ≠ t) {tail : List Char} : Skipped t (u.openTag inner) tail := by
    have hlast := Construct.getLast?_front hn
    have hbalanced := hfront hu
    rw [Construct.front, hk] at hlast hbalanced
    exact hopening ▸ hbalanced.skipped hlast
  rw [Construct.extent, hopening]
  obtain ⟨hc, hnone, hclosing⟩ | ⟨-, hself, hclosing⟩ := hpieces
  · rw [hnone, hclosing, List.append_nil, List.append_nil]
    by_cases hu : u = t
    · subst hu
      exact .selfClosing hi (hc.resolve_left (by simp [ht]))
    · exact hother hu
  · rw [hclosing]
    by_cases hu : u = t
    · subst hu
      exact .container hi hself hbody
    · exact .append (.append (hother hu) hbody) (.of_passable (throughout_closer hu tail))

/-- A template is passed over by the search for a closing tag, if no such tag stands in its texts
and its markup of other kinds is balanced. -/
theorem Parses.skipped (ho : o.trimBodies = false) (ht : t.isContainer = true)
    (h : Parses o depth here cs blocks) (htexts : ∀ s ∈ texts blocks, ¬ t.closer <:+: s.toList)
    (hmarkup : ∀ p ∈ markup cs, p.1 ≠ .tag t → Balanced t p.2)
    (htail : ∀ c ∈ tail.head?, c ∈ ['<', '$']) : Skipped t cs tail := by
  induction h generalizing tail with
  | plain hn =>
    have hfree := Construct.free_plain hn (not_isInfix_of_texts htexts)
    exact .of_passable (hfree.passable (.inl htail))
  | @inline _ here cs k rest hn hk _ ih =>
    simp only [texts_append, texts, Block.texts, List.nil_append, List.mem_append] at htexts
    simp only [markup_some hn, List.mem_cons, List.mem_append] at hmarkup
    have hbefore := not_isInfix_of_texts fun s hs => htexts s (.inl hs)
    have hrest := ih (fun s hs => htexts s (.inr hs)) (fun p hp => hmarkup p (.inr (.inr hp))) htail
    have hbalanced := hmarkup (k.kind, k.front) (.inl rfl) (by simp [hk])
    have hfront : k.front = k.extent := by rw [Construct.front, hk]
    refine skipped_of_next hn hbefore ?_ hrest
    exact hfront ▸ hbalanced.skipped (Construct.getLast?_front hn)
  | @inclusion _ here cs k block rest hn hk hb _ ih =>
    simp only [texts_append, texts, List.mem_append] at htexts
    simp only [markup_some hn, List.mem_cons, List.mem_append] at hmarkup
    have hbefore := not_isInfix_of_texts fun s hs => htexts s (.inl hs)
    have hrest := ih (fun s hs => htexts s (.inr (.inr hs)))
      (fun p hp => hmarkup p (.inr (.inr hp))) htail
    have hfront (hu : Tag.inclusion ≠ t) : Balanced t k.front :=
      hmarkup (k.kind, k.front) (.inl rfl) (by simpa [hk] using hu)
    have hbody := Construct.body_eq_nil hn hk rfl
    refine skipped_of_next hn hbefore ?_ hrest
    exact skipped_extent ht hn hk hfront (hbody ▸ skipped_nil t _)
  | @container _ here cs k u header body rest hn hk _ _ _ _ _ ihb ih =>
    simp only [ParseOptions.trimming_of_not_trimBodies ho, Trimmed.main_untouched,
      Trimmed.kept_untouched, Trimmed.tail_untouched, texts_append, texts, texts_block,
      List.mem_append] at htexts ihb
    simp only [markup_some hn, List.mem_cons, List.mem_append] at hmarkup
    have hbefore := not_isInfix_of_texts fun s hs => htexts s (.inl hs)
    have hrest := ih (fun s hs => htexts s (.inr (.inr hs)))
      (fun p hp => hmarkup p (.inr (.inr hp))) htail
    have hfront (hu : u ≠ t) : Balanced t k.front :=
      hmarkup (k.kind, k.front) (.inl rfl) (by simpa [hk] using hu)
    have hinside : k.inside = k.body := by rw [Construct.inside, hk]
    -- Behind the body stands a closing tag, of whichever kind, so no tag goes over its end.
    have hbody : Skipped t k.body (u.closer ++ (k.after ++ tail)) := by
      refine ihb (fun s hs => htexts s (.inr (.inl (.inl hs)))) (fun p hp => ?_) ?_
      · exact hmarkup p (.inr (.inl (hinside ▸ hp)))
      · rintro c ⟨⟩
        decide
    exact skipped_of_next hn hbefore (skipped_extent ht hn hk hfront hbody) hrest

end

/-! ## A template enclosed -/

/-- A container around a text that the search passes over is read as one block, if the text is read
one level deeper. -/
theorem parseBlocks_enclosed {o : ParseOptions} {t : Tag} {inner cs : List Char} {header : Header}
    {here : Location} {depth : Nat} {body : List Block} (ho : o.trimBodies = false)
    (ht : t.isContainer = true) (hi : IsInner inner) (hself : isSelfClosing inner = false)
    (hh : ∀ k : Construct, k.attributes = Attributes.parse (attributeText inner) →
      readHeader k t here = .ok header)
    (hs : Skipped t cs t.closer) (hd : depth + 1 ≤ o.maxDepth)
    (hb : parseBlocks o (depth + 1) (here.after (t.openTag inner)) cs = .ok body) :
    parseBlocks o depth here (t.openTag inner ++ cs ++ t.closer) =
      .ok [header.block here (Attributes.parse (attributeText inner)) (String.ofList cs) body] := by
  have hhead := Construct.findHead_openTag hi t Construct.plain_nil (cs ++ t.closer)
  rw [List.nil_append, ← List.append_assoc] at hhead
  rw [← List.append_nil t.closer] at hs
  have hcloser := hs.findCloser here (here.after (t.openTag inner))
  rw [List.append_nil] at hcloser
  have hnext := Construct.found_iff.2 (.container hhead (hi.splits _) ht hself hcloser)
  rw [parseBlocks_some hnext (readBlock_container ho rfl ht (hh _ rfl) hd hb)]
  show (parseBlocks o depth _ []).map _ = _
  rw [parseBlocks_none (Construct.next_nil _)]
  rfl

/-- The opening tag of a condition. -/
def condOpening (condition : String) : String :=
  "<if cond:'" ++ String.ofList (escape condition.toList) ++ "'>"

/-- A text between the tags of a condition. -/
def enclosed (condition body : String) : String := condOpening condition ++ body ++ "</if>"

theorem toList_condOpening (condition : String) :
    (condOpening condition).toList = Tag.cond.openTag (printItems [("cond", condition)]) := by
  simp [condOpening, printItems, printItem, printMore, Tag.openTag, Tag.opener, Tag.word]

theorem toList_enclosed (condition body : String) :
    (enclosed condition body).toList =
      Tag.cond.openTag (printItems [("cond", condition)]) ++ body.toList ++ Tag.cond.closer := by
  simp [enclosed, toList_condOpening, Tag.closer, Tag.word]

/-- A condition around a template is read as one block with the template in it, if no closing tag of
a condition stands in a text of the template, and its inline expressions and the opening tags of
other kinds are balanced. -/
theorem parse_enclosed {o o' : ParseOptions} (ho : o.trimBodies = false)
    (ho' : o'.trimBodies = false) (condition : String) {body : String} {blocks : List Block}
    (h : parse o body = .ok blocks)
    (htexts : ∀ s ∈ texts blocks, ¬ Tag.cond.closer <:+: s.toList)
    (hmarkup : ∀ p ∈ markup body.toList, p.1 ≠ .tag .cond → Balanced .cond p.2)
    (hd : nesting blocks + 1 ≤ o'.maxDepth) :
    parse o' (enclosed condition body) =
      .ok [.cond Location.start condition [("cond", condition)] body
        (mapLocations (fun l => Location.ofOffset (enclosed condition body).toList
          ((condOpening condition).utf8ByteSize + l.offset)) blocks)] := by
  have hparses := parses_of_parseBlocks h
  have hname : ∀ item ∈ [("cond", condition)], IsName item.1 := by
    simp only [List.mem_singleton, forall_eq]
    exact ⟨by decide, List.all_eq_true.1 (by decide)⟩
  have hattributes : Attributes.parse (attributeText (printItems [("cond", condition)])) =
      [("cond", condition)] := by
    rw [attributeText_printItems]
    exact Attributes.parse_printItems (List.pairwise_singleton _ _) .rfl hname
  have hskipped : Skipped .cond body.toList Tag.cond.closer :=
    hparses.skipped ho rfl htexts hmarkup (by rintro c ⟨⟩; decide)
  have hcarries : Carries (fun l => Location.ofOffset (enclosed condition body).toList
      ((condOpening condition).utf8ByteSize + l.offset)) Location.start
      (Location.start.after (Tag.cond.openTag (printItems [("cond", condition)])))
      body.toList := by
    simp only [← utf8Length_toList, toList_enclosed, toList_condOpening]
    exact carries_ofOffset _ _
  have hd : 1 + nesting blocks ≤ o'.maxDepth := by omega
  have hmoved := (hparses.move (ho'.trans ho.symm) hd hcarries).parseBlocks
  have hheader (k : Construct)
      (hk : k.attributes = Attributes.parse (attributeText (printItems [("cond", condition)]))) :
      readHeader k .cond Location.start = .ok (.cond condition) := by
    refine readHeader_cond ?_
    rw [hk, hattributes]
    simp [Fields.get?]
  have hblock := parseBlocks_enclosed ho' rfl (isInner_printItems hname)
    (isSelfClosing_printItems _) hheader hskipped (by omega) hmoved
  rw [hattributes, String.ofList_toList, ← toList_enclosed] at hblock
  exact hblock

/-- A closing tag in the quotes of a condition, and balanced tags in an expression. -/
def sheltering : String :=
  "a<if cond:'</if>'>b</if>$\x7b'<if ></if>'\x7d<for var:'x' in:'xs'>$\x7bx\x7d</for>"

/-- The blocks of `sheltering`. -/
def shelteringBlocks : List Block :=
  [.text ⟨1, 1, 0⟩ "a",
    .cond ⟨1, 2, 1⟩ "</if>" [("cond", "</if>")] "b" [.text ⟨1, 19, 18⟩ "b"],
    .inline ⟨1, 25, 24⟩ "'<if ></if>'",
    .loop ⟨1, 40, 39⟩ "x" "xs" [("in", "xs"), ("var", "x")] "$\x7bx\x7d" [.inline ⟨1, 61, 60⟩ "x"]]

theorem sheltering_enclosed :
    parse {} sheltering = .ok shelteringBlocks ∧
      (∀ s ∈ texts shelteringBlocks, ¬ Tag.cond.closer <:+: s.toList) ∧
      (∀ p ∈ markup sheltering.toList, p.1 ≠ .tag .cond → Balanced .cond p.2) ∧
      nesting shelteringBlocks = 1 ∧
      parse {} (enclosed "n > 1" sheltering) =
        .ok [.cond Location.start "n > 1" [("cond", "n > 1")] sheltering
          (mapLocations (fun l => Location.ofOffset (enclosed "n > 1" sheltering).toList
            (17 + l.offset)) shelteringBlocks)] := by
  have hparse : parse {} sheltering = .ok shelteringBlocks :=
    eq_ok_of_toOption (by decide +kernel)
  have htexts : ∀ s ∈ texts shelteringBlocks, ¬ Tag.cond.closer <:+: s.toList := by decide +kernel
  have hmarkup : ∀ p ∈ markup sheltering.toList, p.1 ≠ .tag .cond → Balanced .cond p.2 := by
    decide +kernel
  exact ⟨hparse, htexts, hmarkup, rfl,
    parse_enclosed rfl rfl "n > 1" hparse htexts hmarkup (by decide)⟩

/-- An expression that hides a closing tag. -/
def hidingExpression : String := "$\x7b'</if>'\x7d"

/-- An inclusion that hides a closing tag in an attribute. -/
def hidingInclusion : String := "<include resource:'</if>'/>"

/-- A template without texts and containers need not be read as one block between the tags of a
condition: a closing tag in an expression ends the condition, and one in an inclusion leaves the tag
of the inclusion without an end. -/
theorem enclosed_hiding :
    parse {} hidingExpression = .ok [.inline Location.start "'</if>'"] ∧
      texts [.inline Location.start "'</if>'"] = [] ∧
      nesting [.inline Location.start "'</if>'"] = 0 ∧
      parse {} (enclosed "c" hidingExpression) =
        .ok [.cond Location.start "c" [("cond", "c")] "$\x7b'" [.text ⟨1, 14, 13⟩ "$\x7b'"],
          .text ⟨1, 22, 21⟩ "'\x7d</if>"] ∧
      parse {} hidingInclusion =
        .ok [.inclusion Location.start "</if>" [("resource", "</if>")]] ∧
      (parse {} (enclosed "c" hidingInclusion)).toOption = none :=
  ⟨eq_ok_of_toOption (by decide +kernel), rfl, rfl, eq_ok_of_toOption (by decide +kernel),
    eq_ok_of_toOption (by decide +kernel), by decide +kernel⟩

end Stencil.Markup
