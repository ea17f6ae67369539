import Stencil.Markup.Parse

/-!
# How a template is read

A construct that is found in a text has one of three forms (`Construct.Found`): it is an inline
expression, a tag by itself, or a container that reaches to its closing tag. `Parses` is the reading
of a text as a derivation, with one rule for the rest of a text, for an inline expression, for an
inclusion and for a container. `parses_iff` says that `parseBlocks` finds exactly these derivations,
so what is true of every successful reading is proved by induction over them.
-/

namespace Stencil.Markup

open Stencil.Text

/-! ## Opening tags -/

/-- The text between the name of a tag and the `>` that ends it: the name ends before it, and no `>`
in it stands outside quotes. -/
structure IsInner (inner : List Char) : Prop where
  endsName : ∀ c ∈ (inner ++ ['>']).head?, Tag.endsName c = true
  splits : ∀ rest, splitOpening false (inner ++ '>' :: rest) = some (inner, rest)

/-- A character that hides no other one. -/
theorem splitOpening_plain {quoted : Bool} {c : Char} (h : quoted = true → c ≠ '\\')
    (cs : List Char) :
    splitOpening quoted (c :: cs) =
      if c = '\x27' then (splitOpening (!quoted) cs).map fun p => (c :: p.1, p.2)
      else if c = '>' && !quoted then some ([], cs)
      else (splitOpening quoted cs).map fun p => (c :: p.1, p.2) := by
  rw [splitOpening]
  · exact fun hq hc => absurd hc (h hq)
  · exact fun _ _ hq hc => absurd hc (h hq)

/-- Where an opening tag ends does not depend on what follows it. -/
theorem splitOpening_of_eq {quoted : Bool} {cs inner tail : List Char}
    (h : splitOpening quoted cs = some (inner, tail)) (rest : List Char) :
    splitOpening quoted (inner ++ '>' :: rest) = some (inner, rest) := by
  fun_induction splitOpening quoted cs generalizing inner with
  | case1 => cases h
  | case2 => cases h
  | case3 c cs ih =>
    obtain ⟨p, hp, he⟩ := Option.map_eq_some_iff.1 h
    obtain ⟨rfl, rfl⟩ := Prod.mk.inj he
    rw [List.cons_append, List.cons_append, splitOpening, ih hp]
    rfl
  | case4 quoted cs h₁ h₂ ih =>
    obtain ⟨p, hp, he⟩ := Option.map_eq_some_iff.1 h
    obtain ⟨rfl, rfl⟩ := Prod.mk.inj he
    rw [List.cons_append, splitOpening_plain (fun _ => by decide), if_pos rfl, ih hp]
    rfl
  | case5 quoted c cs h₁ h₂ h₃ hc =>
    obtain ⟨rfl, rfl⟩ := Prod.mk.inj (Option.some.inj h)
    obtain ⟨rfl, hq⟩ : c = '>' ∧ quoted = false := by simpa using hc
    rw [hq]
    rfl
  | case6 quoted c cs h₁ h₂ h₃ h₄ ih =>
    obtain ⟨p, hp, he⟩ := Option.map_eq_some_iff.1 h
    obtain ⟨rfl, rfl⟩ := Prod.mk.inj he
    have hplain : quoted = true → c ≠ '\\' := fun hq =>
      ne_of_not_escape (h₁ hq) fun d ds => h₂ d ds hq
    rw [List.cons_append, splitOpening_plain hplain, if_neg h₃, if_neg h₄, ih hp]
    rfl

/-- The text of an opening tag whose name was recognised. -/
theorem isInner_of_strip {t : Tag} {cs rest inner tail : List Char} (h : t.strip cs = some rest)
    (hs : splitOpening false rest = some (inner, tail)) : IsInner inner where
  endsName c hc := by
    obtain ⟨d, r, he, rfl, -⟩ := Tag.strip_eq_some_iff.1 h
    have hrest := splitOpening_eq hs
    have hhead : (inner ++ ['>']).head? = some d := by
      cases inner with
      | nil =>
        cases hrest
        rfl
      | cons e inner =>
        cases hrest
        rfl
    rw [hhead, Option.mem_some_iff] at hc
    exact hc ▸ he
  splits := splitOpening_of_eq hs

namespace Construct

/-! ## The head of a construct -/

theorem strip_of_head? {cs rest : List Char} {t : Tag} (h : head? cs = some (.tag t rest)) :
    t.strip cs = some rest := by
  unfold head? at h
  split at h
  · rename_i u rest' hu
    cases h
    obtain ⟨v, _, hv⟩ := List.exists_of_findSome?_eq_some hu
    obtain ⟨r, hr, he⟩ := Option.map_eq_some_iff.1 hv
    cases he
    exact hr
  · obtain ⟨i, _, he⟩ := Option.map_eq_some_iff.1 h
    cases he

theorem read_of_head? {cs : List Char} {i : Inline} (h : head? cs = some (.inline i)) :
    Inline.read cs = some i := by
  unfold head? at h
  split at h
  · cases h
  · obtain ⟨j, hj, he⟩ := Option.map_eq_some_iff.1 h
    cases he
    exact hj

/-- The head that is found stands behind the text before it. -/
theorem head?_of_findHead {cs before : List Char} {head : Head}
    (h : findHead cs = some (before, head)) :
    ∃ rest, cs = before ++ rest ∧ head? rest = some head := by
  induction cs generalizing before with
  | nil => cases h
  | cons c cs ih =>
    unfold findHead at h
    split at h
    · rename_i head' hh
      cases h
      exact ⟨c :: cs, rfl, hh⟩
    · obtain ⟨p, hp, he⟩ := Option.map_eq_some_iff.1 h
      cases he
      obtain ⟨rest, rfl, hh⟩ := ih hp
      exact ⟨rest, rfl, hh⟩

/-- A tag that is found has an opening tag with a name that ends. -/
theorem isInner_of_findHead {cs before rest inner tail : List Char} {t : Tag}
    (h : findHead cs = some (before, .tag t rest))
    (hs : splitOpening false rest = some (inner, tail)) : IsInner inner := by
  obtain ⟨_, -, hh⟩ := head?_of_findHead h
  exact isInner_of_strip (strip_of_head? hh) hs

/-! ## The forms of constructs -/

/-- The first construct of a text that begins at `here`, in one of its three forms. -/
inductive Found (here : Location) (cs : List Char) : Construct → Prop
  /-- An inline expression. -/
  | inline {before : List Char} {i : Inline} (hh : findHead cs = some (before, .inline i)) :
    Found here cs ⟨.inline, [], before, i.opening, i.expression, i.closing, i.after⟩
  /-- A tag that owns no body or closes itself. -/
  | single {before rest inner tail : List Char} {t : Tag}
    (hh : findHead cs = some (before, .tag t rest))
    (hs : splitOpening false rest = some (inner, tail))
    (hc : t.isContainer = false ∨ isSelfClosing inner = true) :
    Found here cs ⟨.tag t, Attributes.parse (attributeText inner), before, t.openTag inner, [], [],
      tail⟩
  /-- A container, up to the closing tag that matches. -/
  | container {before rest inner tail body after : List Char} {t : Tag}
    (hh : findHead cs = some (before, .tag t rest))
    (hs : splitOpening false rest = some (inner, tail)) (ht : t.isContainer = true)
    (hc : isSelfClosing inner = false)
    (hf : findCloser t (here.after before) 0 ((here.after before).after (t.openTag inner)) tail =
      .ok (body, after)) :
    Found here cs ⟨.tag t, Attributes.parse (attributeText inner), before, t.openTag inner, body,
      t.closer, after⟩

theorem found_iff {here : Location} {cs : List Char} {k : Construct} :
    next here cs = .ok (some k) ↔ Found here cs k := by
  constructor
  · intro h
    unfold next at h
    split at h
    · cases h
    · rename_i before i hh
      cases h
      exact .inline hh
    · rename_i before t rest hh
      obtain ⟨k', hk, he⟩ := map_eq_ok_iff.1 h
      cases he
      unfold ofTag at hk
      dsimp only at hk
      split at hk
      · cases hk
      · rename_i inner tail hs
        split at hk
        · rename_i hc
          cases hk
          exact .single hh hs (by simpa using hc)
        · rename_i hc
          obtain ⟨p, hp, rfl⟩ := map_eq_ok_iff.1 hk
          rw [Bool.or_eq_true, not_or, Bool.not_eq_true, Bool.not_eq_true, Bool.not_eq_false'] at hc
          exact .container hh hs hc.1 hc.2 hp
  · intro h
    cases h with
    | inline hh => rw [next, hh]
    | single hh hs hc =>
      rcases hc with hc | hc <;> simp [next, hh, ofTag, hs, hc, Except.map]
    | container hh hs ht hc hf =>
      simp [next, hh, ofTag, hs, ht, hc, hf, Except.map]

theorem next_eq_none_iff {here : Location} {cs : List Char} :
    next here cs = .ok none ↔ findHead cs = none := by
  unfold next
  split
  · simp_all
  · simp_all
  · rename_i before t rest hh
    simp [hh, map_eq_ok_iff]

theorem next_nil (here : Location) : next here [] = .ok none := rfl

/-- What an inline expression is made of. -/
theorem extent_of_inline {here : Location} {cs : List Char} {k : Construct}
    (h : next here cs = .ok (some k)) (hk : k.kind = .inline) :
    ∃ inner, k.extent = '$' :: '{' :: (inner ++ ['}']) ∧ trim inner = k.body := by
  cases found_iff.1 h with
  | inline hh =>
    obtain ⟨_, -, hhead⟩ := head?_of_findHead hh
    obtain ⟨inner, -, hextent, htrim⟩ := Inline.read_inv (read_of_head? hhead)
    exact ⟨inner, hextent, htrim⟩
  | single => cases hk
  | container => cases hk

/-- What a tag is made of: it is its opening tag alone, or it has a body and a closing tag. -/
theorem pieces_of_tag {here : Location} {cs : List Char} {k : Construct} {t : Tag}
    (h : next here cs = .ok (some k)) (hk : k.kind = .tag t) :
    ∃ inner, IsInner inner ∧ k.opening = t.openTag inner ∧
      ((t.isContainer = false ∨ isSelfClosing inner = true) ∧ k.body = [] ∧ k.closing = [] ∨
        t.isContainer = true ∧ isSelfClosing inner = false ∧ k.closing = t.closer) := by
  cases found_iff.1 h with
  | inline => cases hk
  | single hh hs hc =>
    cases hk
    exact ⟨_, isInner_of_findHead hh hs, rfl, .inl ⟨hc, rfl, rfl⟩⟩
  | container hh hs ht hc =>
    cases hk
    exact ⟨_, isInner_of_findHead hh hs, rfl, .inr ⟨ht, hc, rfl⟩⟩

/-- A tag that owns no body has none. -/
theorem body_eq_nil {here : Location} {cs : List Char} {k : Construct} {t : Tag}
    (h : next here cs = .ok (some k)) (hk : k.kind = .tag t) (ht : t.isContainer = false) :
    k.body = [] := by
  obtain ⟨inner, -, -, ⟨-, hbody, -⟩ | ⟨hu, -⟩⟩ := pieces_of_tag h hk
  · exact hbody
  · cases hu.symm.trans ht

end Construct

/-! ## One block -/

/-- The block that a construct stands for, in a text that begins at `here` inside `depth`
containers. -/
def readBlock (o : ParseOptions) (depth : Nat) (here : Location) (k : Construct) :
    Except MarkupError Block :=
  match k.kind with
  | .inline => .ok (.inline (k.location here) (String.ofList k.body))
  | .tag .inclusion => readInclusion k (k.location here)
  | .tag tag =>
    match readHeader k tag (k.location here) with
    | .error e => .error e
    | .ok header =>
      if depth + 1 > o.maxDepth then .error (.depthExceeded o.maxDepth (k.location here))
      else
        let cut := o.trimming k.body
        let start := k.bodyLocation here
        (parseBlocks o (depth + 1) (start.after cut.lead) cut.main).map fun body =>
          header.block (k.location here) k.attributes (String.ofList cut.kept)
            (body ++ textBlock (start.after cut.beforeTail) cut.tail)

section

variable {o : ParseOptions} {depth : Nat} {here : Location} {cs : List Char} {k : Construct}

theorem parseBlocks_none (h : Construct.next here cs = .ok none) :
    parseBlocks o depth here cs = .ok (textBlock here cs) := by
  rw [parseBlocks]
  split <;> simp_all

theorem parseBlocks_error {e : MarkupError} (h : Construct.next here cs = .error e) :
    parseBlocks o depth here cs = .error e := by
  rw [parseBlocks]
  split <;> simp_all

/-- A construct is read first, and then what follows it. -/
theorem parseBlocks_step (h : Construct.next here cs = .ok (some k)) :
    parseBlocks o depth here cs =
      match readBlock o depth here k with
      | .error e => .error e
      | .ok block =>
        (parseBlocks o depth (k.afterLocation here) k.after).map fun rest =>
          textBlock here k.before ++ block :: rest := by
  rw [parseBlocks]
  split
  · rename_i h'
    cases h.symm.trans h'
  · rename_i h'
    cases h.symm.trans h'
  · rename_i h'
    cases h.symm.trans h'
    rfl

theorem parseBlocks_some {block : Block} (h : Construct.next here cs = .ok (some k))
    (hb : readBlock o depth here k = .ok block) :
    parseBlocks o depth here cs =
      (parseBlocks o depth (k.afterLocation here) k.after).map fun rest =>
        textBlock here k.before ++ block :: rest := by
  rw [parseBlocks_step h, hb]

/-- A text that is read has no construct, or a first one that is read, and then a rest. -/
theorem parseBlocks_inv {blocks : List Block} (h : parseBlocks o depth here cs = .ok blocks) :
    Construct.next here cs = .ok none ∧ blocks = textBlock here cs ∨
      ∃ k block rest, Construct.next here cs = .ok (some k) ∧
        readBlock o depth here k = .ok block ∧
        parseBlocks o depth (k.afterLocation here) k.after = .ok rest ∧
        blocks = textBlock here k.before ++ block :: rest := by
  rw [parseBlocks] at h
  split at h
  · cases h
  · rename_i hn
    cases h
    exact .inl ⟨hn, rfl⟩
  · rename_i k hn
    dsimp only at h
    split at h
    · cases h
    · rename_i block hb
      obtain ⟨rest, hr, rfl⟩ := map_eq_ok_iff.1 h
      exact .inr ⟨k, block, rest, hn, hb, hr, rfl⟩

/-- A container is read from its header and its body. -/
theorem readBlock_of_header {t : Tag} {header : Header} (hk : k.kind = .tag t)
    (ht : t.isContainer = true) (hh : readHeader k t (k.location here) = .ok header)
    (hd : depth + 1 ≤ o.maxDepth) :
    readBlock o depth here k =
      (parseBlocks o (depth + 1) ((k.bodyLocation here).after (o.trimming k.body).lead)
        (o.trimming k.body).main).map fun body =>
          header.block (k.location here) k.attributes (String.ofList (o.trimming k.body).kept)
            (body ++ textBlock ((k.bodyLocation here).after (o.trimming k.body).beforeTail)
              (o.trimming k.body).tail) := by
  have hd := Nat.not_lt.2 hd
  rw [readBlock, hk]
  cases t with
  | inclusion => cases ht
  | loop | cond | static => simp [hh, hd]

/-- The body of a container, where bodies are not trimmed. -/
theorem readBlock_container {t : Tag} {header : Header} {body : List Block}
    (ho : o.trimBodies = false) (hk : k.kind = .tag t) (ht : t.isContainer = true)
    (hh : readHeader k t (k.location here) = .ok header) (hd : depth + 1 ≤ o.maxDepth)
    (hb : parseBlocks o (depth + 1) (k.bodyLocation here) k.body = .ok body) :
    readBlock o depth here k =
      .ok (header.block (k.location here) k.attributes (String.ofList k.body) body) := by
  rw [readBlock_of_header hk ht hh hd]
  simp [ParseOptions.trimming_of_not_trimBodies ho, hb, Except.map, textBlock]

theorem Tag.isContainer_of_ne_inclusion {t : Tag} (h : t ≠ .inclusion) : t.isContainer = true := by
  cases t with
  | inclusion => exact absurd rfl h
  | loop | cond | static => rfl

/-- A construct that is read is an inline expression, an inclusion or a container. -/
theorem readBlock_inv {block : Block} (h : readBlock o depth here k = .ok block) :
    k.kind = .inline ∧ block = .inline (k.location here) (String.ofList k.body) ∨
      k.kind = .tag .inclusion ∧ readInclusion k (k.location here) = .ok block ∨
      ∃ t header body, k.kind = .tag t ∧ t.isContainer = true ∧
        readHeader k t (k.location here) = .ok header ∧ depth + 1 ≤ o.maxDepth ∧
        parseBlocks o (depth + 1) ((k.bodyLocation here).after (o.trimming k.body).lead)
          (o.trimming k.body).main = .ok body ∧
        block = header.block (k.location here) k.attributes
          (String.ofList (o.trimming k.body).kept)
          (body ++ textBlock ((k.bodyLocation here).after (o.trimming k.body).beforeTail)
            (o.trimming k.body).tail) := by
  rw [readBlock] at h
  split at h
  · rename_i hk
    cases h
    exact .inl ⟨hk, rfl⟩
  · rename_i hk
    exact .inr (.inl ⟨hk, h⟩)
  · rename_i t ht hk
    split at h
    · cases h
    · rename_i header hh
      split at h
      · cases h
      · rename_i hd
        obtain ⟨body, hb, rfl⟩ := map_eq_ok_iff.1 h
        have hc := Tag.isContainer_of_ne_inclusion ht
        exact .inr (.inr ⟨t, header, body, hk, hc, hh, Nat.not_lt.1 hd, hb, rfl⟩)

end

/-! ## Readings as derivations -/

/-- The text `cs`, which begins at `here` inside `depth` containers, is read as `blocks`. -/
inductive Parses (o : ParseOptions) : Nat → Location → List Char → List Block → Prop
  /-- A text without constructs. -/
  | plain {depth : Nat} {here : Location} {cs : List Char}
    (hn : Construct.next here cs = .ok none) : Parses o depth here cs (textBlock here cs)
  /-- An inline expression and what follows it. -/
  | inline {depth : Nat} {here : Location} {cs : List Char} {k : Construct} {rest : List Block}
    (hn : Construct.next here cs = .ok (some k)) (hk : k.kind = .inline)
    (hr : Parses o depth (k.afterLocation here) k.after rest) :
    Parses o depth here cs (textBlock here k.before ++
      .inline (k.location here) (String.ofList k.body) :: rest)
  /-- An inclusion and what follows it. -/
  | inclusion {depth : Nat} {here : Location} {cs : List Char} {k : Construct} {block : Block}
    {rest : List Block} (hn : Construct.next here cs = .ok (some k))
    (hk : k.kind = .tag .inclusion) (hb : readInclusion k (k.location here) = .ok block)
    (hr : Parses o depth (k.afterLocation here) k.after rest) :
    Parses o depth here cs (textBlock here k.before ++ block :: rest)
  /-- A container, of which what is left by trimming is read one level deeper, and what follows
  it. -/
  | container {depth : Nat} {here : Location} {cs : List Char} {k : Construct} {t : Tag}
    {header : Header} {body rest : List Block} (hn : Construct.next here cs = .ok (some k))
    (hk : k.kind = .tag t) (ht : t.isContainer = true)
    (hh : readHeader k t (k.location here) = .ok header) (hd : depth + 1 ≤ o.maxDepth)
    (hb : Parses o (depth + 1) ((k.bodyLocation here).after (o.trimming k.body).lead)
      (o.trimming k.body).main body)
    (hr : Parses o depth (k.afterLocation here) k.after rest) :
    Parses o depth here cs (textBlock here k.before ++
      header.block (k.location here) k.attributes (String.ofList (o.trimming k.body).kept)
        (body ++ textBlock ((k.bodyLocation here).after (o.trimming k.body).beforeTail)
          (o.trimming k.body).tail) :: rest)

section

variable {o : ParseOptions} {depth : Nat} {here : Location} {cs : List Char} {blocks : List Block}

theorem Parses.parseBlocks (h : Parses o depth here cs blocks) :
    parseBlocks o depth here cs = .ok blocks := by
  induction h with
  | plain hn => exact parseBlocks_none hn
  | @inline depth here _ k _ hn hk _ ih =>
    have hb : readBlock o depth here k = .ok (.inline (k.location here) (String.ofList k.body)) := by
      rw [readBlock, hk]
    rw [parseBlocks_some hn hb, ih]
    rfl
  | @inclusion depth here _ k block _ hn hk hb _ ih =>
    have hb : readBlock o depth here k = .ok block := by rwa [readBlock, hk]
    rw [parseBlocks_some hn hb, ih]
    rfl
  | container hn hk ht hh hd _ _ ihb ihr =>
    have hb := readBlock_of_header hk ht hh hd
    rw [ihb] at hb
    rw [parseBlocks_some hn hb, ihr]
    rfl

theorem parses_of_parseBlocks (h : parseBlocks o depth here cs = .ok blocks) :
    Parses o depth here cs blocks := by
  -- body and rest of a construct are shorter than the text
  induction hl : cs.length using Nat.strongRecOn generalizing depth here cs blocks with
  | ind n ih =>
    subst hl
    obtain ⟨hn, rfl⟩ | ⟨k, block, rest, hn, hread, hr, rfl⟩ := parseBlocks_inv h
    · exact .plain hn
    · have hr := ih _ (Construct.length_after_lt hn) hr rfl
      obtain ⟨hk, rfl⟩ | ⟨hk, hb⟩ | ⟨t, header, body, hk, ht, hh, hd, hb, rfl⟩ :=
        readBlock_inv hread
      · exact .inline hn hk hr
      · exact .inclusion hn hk hb hr
      · exact .container hn hk ht hh hd (ih _ (Construct.length_main_lt o hn) hb rfl) hr

/-- The derivations are the readings that `parseBlocks` finds. -/
theorem parses_iff : Stencil.Markup.parseBlocks o depth here cs = .ok blocks ↔
    Parses o depth here cs blocks :=
  ⟨parses_of_parseBlocks, Parses.parseBlocks⟩

/-- Nothing is read as no blocks. -/
theorem Parses.eq_nil (h : Parses o depth here [] blocks) : blocks = [] := by
  have hnil := Construct.next_nil here
  cases h with
  | plain => rfl
  | inline hn => cases hnil.symm.trans hn
  | inclusion hn => cases hnil.symm.trans hn
  | container hn => cases hnil.symm.trans hn

end

end Stencil.Markup
