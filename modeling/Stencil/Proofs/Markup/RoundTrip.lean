import Stencil.Proofs.Markup.Closing
import Stencil.Proofs.Markup.Reading

/-!
# Printed templates are read back

The main statement is `parse_printBlocks`: a tree that can be printed is read back from its text, up
to the places and raw bodies of its blocks, which are those of the printed template. The induction
is over the tree; `textBefore` is the text that the next construct of a template is found behind.
-/

namespace Stencil.Markup

open Stencil.Text

/-! ## The next construct -/

namespace Construct

theorem tagHead_opener (t : Tag) {c : Char} (h : Tag.endsName c = true) (rest : List Char) :
    tagHead (t.opener ++ c :: rest) = some (t, c :: rest) := by
  have hother : ∀ u : Tag, u ≠ t → u.strip (t.opener ++ c :: rest) = none := fun u hu =>
    (passable_opener (Ne.symm hu) _).2
  have hself := t.strip_opener h rest
  cases t with
  | loop => simp [tagHead, Tag.all, hself]
  | cond => simp [tagHead, Tag.all, hself, hother .loop nofun]
  | static => simp [tagHead, Tag.all, hself, hother .loop nofun, hother .cond nofun]
  | inclusion =>
    simp [tagHead, Tag.all, hself, hother .loop nofun, hother .cond nofun, hother .static nofun]

theorem tagHead_eq_none {cs : List Char} (h : ¬ BeginsWith tagMarks cs) : tagHead cs = none := by
  refine List.findSome?_eq_none_iff.2 fun t _ => ?_
  rw [(passable_of_not_beginsWith t h).2]
  rfl

theorem head?_eq_none {cs : List Char} (h : ¬ BeginsWith marks cs) : head? cs = none := by
  have ht : ¬ BeginsWith tagMarks cs := fun ⟨w, hw, hp⟩ => h ⟨w, List.mem_cons_of_mem _ hw, hp⟩
  have hi : Inline.read cs = none := by
    unfold Inline.read
    split
    · exact absurd ⟨['$', '{'], List.mem_cons_self, _, rfl⟩ h
    · rfl
  rw [head?, tagHead_eq_none ht, hi]
  rfl

/-- Text without the beginnings of constructs. -/
def Plain (x : List Char) : Prop := ∀ w ∈ marks, ¬ w <:+: x

theorem plain_nil : Plain [] := by
  intro w hw hi
  have : ∀ w ∈ marks, w ≠ [] := by decide
  exact this w hw (List.infix_nil.1 hi)

/-- Plain text is passed over. -/
theorem findHead_append {x rest : List Char} (h : Plain x) (hr : Boundary rest) :
    findHead (x ++ rest) = (findHead rest).map (prepend x) := by
  have hx := throughout_not_beginsWith h hr
  clear h
  induction x with
  | nil => simp
  | cons c x ih =>
    rw [List.cons_append, findHead, head?_eq_none hx.1]
    show (findHead (x ++ rest)).map (prepend [c]) = _
    simp [ih hx.2]

theorem findHead_cons {c : Char} {cs : List Char} {head : Head} (h : head? (c :: cs) = some head) :
    findHead (c :: cs) = some ([], head) := by
  rw [findHead, h]

theorem findHead_openTag {inner : List Char} (hi : IsInner inner) (t : Tag) {x : List Char}
    (hx : Plain x) (rest : List Char) :
    findHead (x ++ (t.openTag inner ++ rest)) = some (x, .tag t (inner ++ '>' :: rest)) := by
  obtain ⟨c, r, hc, hr, hs⟩ := t.openTag_append hi.endsName rest
  have hhead : findHead (t.opener ++ c :: r) = some ([], .tag t (c :: r)) := by
    refine findHead_cons ?_
    show head? (t.opener ++ c :: r) = _
    rw [head?, tagHead_opener t hc]
  have hb : Boundary (t.opener ++ c :: r) := boundary_angle _
  rw [hs, hr, findHead_append hx hb, hhead]
  simp [prepend]

variable {arrange : Attributes → List (String × String)}

/-- A tag that owns no body is a construct by itself. -/
theorem next_selfClosing {inner : List Char} {attributes : Attributes}
    (hi : TagInner inner attributes true) (t : Tag) {x : List Char} (hx : Plain x)
    (here : Location) (rest : List Char) :
    next here (x ++ (t.openTag inner ++ rest)) =
      .ok (some ⟨.tag t, attributes, x, t.openTag inner, [], [], rest⟩) := by
  rw [next, findHead_openTag hi.toIsInner t hx]
  simp [ofTag, hi.splits, hi.isSelfClosing, hi.parse, Except.map]

/-- A container reaches to the closing tag that was printed for it. -/
theorem next_container (harrange : ∀ attributes, (arrange attributes).Perm attributes)
    {inner : List Char} {attributes : Attributes} (hi : TagInner inner attributes false) {t : Tag}
    (ht : t.isContainer = true) {body : List Block} (hb : PrintableBlocks body) {x : List Char}
    (hx : Plain x) (here : Location) (rest : List Char) :
    next here (x ++ (t.openTag inner ++ printBlocks arrange body ++ t.closer ++ rest)) =
      .ok (some ⟨.tag t, attributes, x, t.openTag inner, printBlocks arrange body, t.closer,
        rest⟩) := by
  have hs : t.openTag inner ++ printBlocks arrange body ++ t.closer ++ rest =
      t.openTag inner ++ (printBlocks arrange body ++ (t.closer ++ rest)) := by simp
  have hc := findCloser_printBlocks harrange hb t (here.after x)
    ((here.after x).after (t.openTag inner)) rest
  rw [hs, next, findHead_openTag hi.toIsInner t hx]
  simp [ofTag, hi.splits, hi.isSelfClosing, hi.parse, ht, hc, Except.map]

theorem splitAtWord_brace {cs : List Char} (h : '}' ∉ cs) (rest : List Char) :
    splitAtWord ['}'] (cs ++ '}' :: rest) = some (cs, rest) := by
  have hc : Throughout (stripWord ['}'] · = none) cs ('}' :: rest) := by
    apply throughout_of_mem
    intro c hc ds
    have hne : '}' ≠ c := fun he => h (he ▸ hc)
    simp [stripWord, hne]
  have hw : splitAtWord ['}'] ('}' :: rest) = some ([], rest) := splitAtWord_word [] rest
  rw [splitAtWord_append hc, hw]
  simp [prepend]

/-- An inline expression as it is printed is read back. -/
theorem read_inline {e : List Char} (hbrace : '}' ∉ e) (hline : '\n' ∉ e) (htrim : trim e = e)
    (rest : List Char) :
    ∃ i, Inline.read ('$' :: '{' :: (e ++ '}' :: rest)) = some i ∧ i.expression = e ∧
      i.after = rest ∧ i.extent = '$' :: '{' :: (e ++ ['}']) := by
  obtain ⟨i, hi, he, ha⟩ : ∃ i, Inline.read ('$' :: '{' :: (e ++ '}' :: rest)) = some i ∧
      i.expression = e ∧ i.after = rest := by
    simp [Inline.read, splitAtWord_brace hbrace, htrim, hline]
  refine ⟨i, hi, he, ha, ?_⟩
  have hw := Inline.read_eq hi
  rw [Inline.whole, ha] at hw
  have hs : '$' :: '{' :: (e ++ '}' :: rest) = '$' :: '{' :: (e ++ ['}']) ++ rest := by simp
  exact (List.append_cancel_right (hs.symm.trans hw)).symm

theorem next_inline {e : List Char} (hbrace : '}' ∉ e) (hline : '\n' ∉ e) (htrim : trim e = e)
    {x : List Char} (hx : Plain x) (here : Location) (rest : List Char) :
    ∃ k, next here (x ++ ('$' :: '{' :: (e ++ ['}']) ++ rest)) = .ok (some k) ∧
      k.kind = .inline ∧ k.before = x ∧ k.body = e ∧ k.after = rest ∧
      k.extent = '$' :: '{' :: (e ++ ['}']) := by
  obtain ⟨i, hi, he, ha, hw⟩ := read_inline hbrace hline htrim rest
  have hs : '$' :: '{' :: (e ++ ['}']) ++ rest = '$' :: '{' :: (e ++ '}' :: rest) := by simp
  have hd : ¬ BeginsWith tagMarks ('$' :: '{' :: (e ++ '}' :: rest)) :=
    (quiet_of_not_mem (x := ['$']) (by decide) _).1
  have hf : findHead ('$' :: '{' :: (e ++ '}' :: rest)) = some ([], .inline i) := by
    refine findHead_cons ?_
    rw [head?, tagHead_eq_none hd, hi]
    rfl
  refine ⟨⟨.inline, [], x, i.opening, i.expression, i.closing, i.after⟩, ?_, rfl, rfl, he, ha, hw⟩
  rw [hs, next, findHead_append hx (boundary_dollar _), hf]
  simp [prepend]

/-- Plain text has no constructs. -/
theorem next_plain {x : List Char} (hx : Plain x) (here : Location) : next here x = .ok none := by
  have h := findHead_append hx boundary_nil
  rw [List.append_nil] at h
  rw [next, h]
  rfl

end Construct

/-! ## Whole trees -/

section

variable {arrange : Attributes → List (String × String)} {o : ParseOptions}

/-- A container that was printed is read back, if its body is. -/
theorem parseBlocks_container (harrange : ∀ attributes, (arrange attributes).Perm attributes)
    (ho : o.trimBodies = false) {t : Tag} (ht : t.isContainer = true) {inner : List Char}
    {attributes : Attributes} (hi : TagInner inner attributes false) {header : Header}
    (hh : ∀ k place, k.attributes = attributes → readHeader k t place = .ok header)
    {body placed : List Block} (hbody : PrintableBlocks body) {depth : Nat}
    (hd : depth + 1 ≤ o.maxDepth) {here : Location} {x : List Char} (hx : Construct.Plain x)
    (hb : parseBlocks o (depth + 1) ((here.after x).after (t.openTag inner))
      (printBlocks arrange body) = .ok placed) (rest : List Char) :
    parseBlocks o depth here
        (x ++ (t.openTag inner ++ printBlocks arrange body ++ t.closer ++ rest)) =
      (parseBlocks o depth
        ((here.after x).after (t.openTag inner ++ printBlocks arrange body ++ t.closer))
        rest).map fun rest =>
          textBlock here x ++ header.block (here.after x) attributes
            (String.ofList (printBlocks arrange body)) placed :: rest :=
  parseBlocks_some (Construct.next_container harrange hi ht hbody hx here rest)
    (readBlock_container ho rfl ht (hh _ _ rfl) hd hb)

theorem required_of_get? {k : Construct} {tag : Tag} {place : Location} {name value : String}
    (h : Fields.get? name k.attributes = some value) : required k tag place name = .ok value := by
  rw [required, h]

theorem readHeader_loop {k : Construct} {place : Location} {variableName collection : String}
    (hv : Fields.get? "var" k.attributes = some variableName)
    (hc : Fields.get? "in" k.attributes = some collection)
    (hi : isIdentifier variableName.toList = true)
    (ht : trim variableName.toList = variableName.toList) :
    readHeader k .loop place = .ok (.loop variableName collection) := by
  rw [readHeader, required_of_get? hv, required_of_get? hc]
  simp [ht, hi]

theorem readHeader_cond {k : Construct} {place : Location} {condition : String}
    (hc : Fields.get? "cond" k.attributes = some condition) :
    readHeader k .cond place = .ok (.cond condition) := by
  rw [readHeader, required_of_get? hc]
  rfl

mutual

/-- A printed block is read back behind plain text. -/
theorem parseBlocks_printBlock (harrange : ∀ attributes, (arrange attributes).Perm attributes)
    (ho : o.trimBodies = false) (depth : Nat) (block : Block) (h : PrintableBlock block)
    (hblock : isText block = false) (hd : depth + blockNesting block ≤ o.maxDepth)
    (here : Location) {x : List Char} (hx : Construct.Plain x) (rest : List Char) :
    parseBlocks o depth here (x ++ (printBlock arrange block ++ rest)) =
      (parseBlocks o depth ((here.after x).after (printBlock arrange block)) rest).map fun rest =>
        textBlock here x ++ placeBlock arrange (here.after x) block :: rest := by
  match block, h with
  | .inline l expression, ⟨hbrace, hline, htrim, _⟩ =>
    obtain ⟨k, hk, hkind, hbefore, hbody, hafter, hextent⟩ :=
      Construct.next_inline hbrace hline htrim hx here rest
    have hb : readBlock o depth here k = .ok (.inline (here.after x) expression) := by
      rw [readBlock, hkind, Construct.location, hbefore, hbody, String.ofList_toList]
    have hp := parseBlocks_some hk hb
    rw [hbefore, hafter, Construct.afterLocation, Construct.location, hbefore, hextent] at hp
    exact hp
  | .loop l variableName collection attributes _ body, ⟨ha, hvar, hin, hident, htrim, hbody⟩ =>
    rw [blockNesting] at hd
    have hb := parseBlocks_printBlocks harrange ho (depth + 1) body hbody (by omega)
      ((here.after x).after (Tag.loop.openTag (printItems (arrange attributes))))
      Construct.plain_nil nofun
    exact parseBlocks_container harrange ho rfl (tagInner_printItems ha (harrange attributes))
      (fun k place hk => readHeader_loop (hk ▸ hvar) (hk ▸ hin) hident htrim) hbody (by omega) hx
      hb rest
  | .cond l condition attributes _ body, ⟨ha, hcond, hbody⟩ =>
    rw [blockNesting] at hd
    have hb := parseBlocks_printBlocks harrange ho (depth + 1) body hbody (by omega)
      ((here.after x).after (Tag.cond.openTag (printItems (arrange attributes))))
      Construct.plain_nil nofun
    exact parseBlocks_container harrange ho rfl (tagInner_printItems ha (harrange attributes))
      (fun k place hk => readHeader_cond (hk ▸ hcond)) hbody (by omega) hx hb rest
  | .static l _ body, hbody =>
    rw [blockNesting] at hd
    have hb := parseBlocks_printBlocks harrange ho (depth + 1) body hbody (by omega)
      ((here.after x).after (Tag.static.openTag [])) Construct.plain_nil nofun
    exact parseBlocks_container harrange ho rfl tagInner_nil (fun _ _ _ => rfl) hbody (by omega)
      hx hb rest
  | .inclusion l resource attributes, ⟨ha, hresource, htrim⟩ =>
    have hn := Construct.next_selfClosing (tagInner_inclusionInner ha (harrange attributes))
      .inclusion hx here rest
    have hb : readInclusion ⟨.tag .inclusion, attributes, x,
        Tag.inclusion.openTag (inclusionInner arrange attributes), [], [], rest⟩ (here.after x) =
        .ok (.inclusion (here.after x) resource attributes) := by
      rw [readInclusion, required_of_get? hresource]
      simp [Except.map, htrim]
    have hp : parseBlocks o depth here _ = _ := parseBlocks_some hn hb
    rw [Construct.afterLocation, Construct.location, Construct.extent, List.append_nil,
      List.append_nil] at hp
    exact hp

/-- Printed blocks are read back behind plain text. -/
theorem parseBlocks_printBlocks (harrange : ∀ attributes, (arrange attributes).Perm attributes)
    (ho : o.trimBodies = false) (depth : Nat) (blocks : List Block) (h : PrintableBlocks blocks)
    (hd : depth + nesting blocks ≤ o.maxDepth) (here : Location) {x : List Char}
    (hx : Construct.Plain x) (hnext : x ≠ [] → ∀ next ∈ blocks.head?, isText next = false) :
    parseBlocks o depth here (x ++ printBlocks arrange blocks) =
      .ok (textBlock here x ++ placeBlocks arrange (here.after x) blocks) := by
  match blocks, h with
  | [], _ =>
    rw [printBlocks, List.append_nil, parseBlocks_none (Construct.next_plain hx here), placeBlocks,
      List.append_nil]
  | block :: blocks, ⟨hblock, htext, hblocks⟩ =>
    rw [nesting] at hd
    by_cases hb : isText block = true
    · cases block with
      | text l content =>
        obtain ⟨hne, hinline, hfree⟩ := hblock
        have hx : x = [] := Decidable.byContradiction fun hx => by
          rw [hnext hx _ rfl] at hb
          cases hb
        have hplain : Construct.Plain content.toList := by
          intro w hw
          rcases List.mem_cons.1 hw with rfl | hw
          · exact hinline
          · exact hfree w hw
        have ih := parseBlocks_printBlocks harrange ho depth blocks hblocks (by omega) here hplain
          fun _ => htext hb
        subst hx
        have ht : textBlock here content.toList = [.text here content] := by
          have : content.toList ≠ [] := mt String.toList_eq_nil_iff.1 hne
          simp [textBlock, this]
        rw [ht] at ih
        exact ih
      | inline | loop | cond | static | inclusion => cases hb
    · have hb := Bool.eq_false_iff.2 hb
      have ih := parseBlocks_printBlocks harrange ho depth blocks hblocks (by omega)
        ((here.after x).after (printBlock arrange block)) Construct.plain_nil nofun
      rw [printBlocks, parseBlocks_printBlock harrange ho depth block hblock hb (by omega) here hx]
      show (parseBlocks o depth _ ([] ++ printBlocks arrange blocks)).map _ = _
      rw [ih]
      rfl

end

/-- A printed template is read as the tree that was printed: the same blocks in the same order,
with the places and raw bodies that they have in the printed template. -/
theorem parse_printBlocks (harrange : ∀ attributes, (arrange attributes).Perm attributes)
    (ho : o.trimBodies = false) {blocks : List Block} (h : PrintableBlocks blocks)
    (hd : nesting blocks ≤ o.maxDepth) :
    parse o (String.ofList (printBlocks arrange blocks)) =
      .ok (placeBlocks arrange Location.start blocks) := by
  have := parseBlocks_printBlocks harrange ho 0 blocks h (by omega) Location.start
    Construct.plain_nil nofun
  rw [parse, String.toList_ofList]
  exact this

end

/-- A loop in a loop, a comparison in a condition, a quote and a backslash in values, and an
inclusion in a static block. -/
def nestedLoops : List Block :=
  [.text default "Hi, ", .inline default "user.name",
    .loop default "x" "it's" [("in", "it's"), ("var", "x")] ""
      [.cond default "x < 3" [("cond", "x < 3")] "" [.text default "<$"],
        .loop default "y" "x" [("in", "x"), ("var", "y")] "" [.inline default "y"]],
    .static default "" [.inclusion default "foot" [("n", "a\\b"), ("resource", "foot")]]]

theorem parse_nestedLoops :
    PrintableBlocks nestedLoops ∧ nesting nestedLoops = 2 ∧
      parse {} (String.ofList (printBlocks List.reverse nestedLoops)) =
        .ok (placeBlocks List.reverse Location.start nestedLoops) :=
  ⟨by decide +kernel, by decide +kernel,
    parse_printBlocks List.reverse_perm rfl (by decide +kernel) (by decide +kernel)⟩

end Stencil.Markup
