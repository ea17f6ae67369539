import Stencil.Proofs.Markup.Locality

/-!
# The limit on the depth

The limit is compared where the body of a container would be read, and it is used for nothing else.
So two readings with different limits are the same up to the first container that is too deep for
the lower one (`parseBlocks_limit`), and that container is inside of as many others as the limit
says (`depthExceeded_inv`).

A text is longer than its containers are deep, so a limit as long as the text is never exceeded.
Compared with such a reading, a limit cuts off the trees that are nested deeper, and it changes
nothing else (`parse_limit`).
-/

namespace Stencil.Markup

open Stencil.Text

/-! ## Containers of a text -/

/-- In the text `cs`, which begins at `here`, the tag of a container stands at the place `l` inside
of `depth` other containers. Nothing is asked of the attributes of any of them, nor of what stands
behind the tag. -/
inductive ContainerAt (trimming : List Char → Trimmed) :
    Location → List Char → Nat → Tag → Location → Prop
  /-- The first construct of the text. -/
  | here {here : Location} {cs : List Char} {k : Construct} {t : Tag}
    (hn : Construct.next here cs = .ok (some k)) (hk : k.kind = .tag t)
    (ht : t.isContainer = true) : ContainerAt trimming here cs 0 t (k.location here)
  /-- A tag behind the first construct. -/
  | after {here l : Location} {cs : List Char} {k : Construct} {t : Tag} {depth : Nat}
    (hn : Construct.next here cs = .ok (some k))
    (h : ContainerAt trimming (k.afterLocation here) k.after depth t l) :
    ContainerAt trimming here cs depth t l
  /-- A tag in the body of the first construct. -/
  | inside {here l : Location} {cs : List Char} {k : Construct} {t u : Tag} {depth : Nat}
    (hn : Construct.next here cs = .ok (some k)) (hk : k.kind = .tag u) (hu : u.isContainer = true)
    (h : ContainerAt trimming ((k.bodyLocation here).after (trimming k.body).lead)
      (trimming k.body).main depth t l) :
    ContainerAt trimming here cs (depth + 1) t l

section

variable {o : ParseOptions} {depth d limit n : Nat} {here l : Location} {cs : List Char} {t : Tag}
  {k : Construct} {block : Block} {blocks : List Block} {e : MarkupError}

theorem ContainerAt.isContainer (h : ContainerAt o.trimming here cs d t l) :
    t.isContainer = true := by
  induction h with
  | here _ _ ht => exact ht
  | after _ _ ih | inside _ _ _ _ ih => exact ih

/-- Every container around a tag takes at least one character. -/
theorem ContainerAt.lt_length (h : ContainerAt o.trimming here cs d t l) : d < cs.length := by
  induction h with
  | here hn => exact Nat.zero_lt_of_lt (Construct.length_after_lt hn)
  | after hn _ ih => exact Nat.lt_trans ih (Construct.length_after_lt hn)
  | inside hn _ _ _ ih =>
    have := Construct.length_main_lt o hn
    omega

/-! ### The blocks of containers -/

/-- Where the text can be read, the tag has a block, and the containers around it have the blocks
around that. -/
theorem ContainerAt.nested (h : ContainerAt o.trimming here cs d t l)
    (hp : Parses o depth here cs blocks) :
    ∃ block, Nested blocks d block ∧ block.tag? = some t ∧ block.location = l := by
  induction h generalizing depth blocks with
  | here hn hk ht =>
    cases hp with
    | plain hn' => cases hn.symm.trans hn'
    | inline hn' hk' =>
      cases hn.symm.trans hn'
      cases hk.symm.trans hk'
    | inclusion hn' hk' =>
      cases hn.symm.trans hn'
      cases hk.symm.trans hk'
      cases ht
    | container hn' hk' _ hh =>
      cases hn.symm.trans hn'
      cases hk.symm.trans hk'
      refine ⟨_, .here (List.mem_append_right _ List.mem_cons_self), ?_, ?_⟩
      · exact Header.tag?_block hh ht _ _ _
      · exact Header.location_block ..
  | after hn _ ih =>
    cases hp with
    | plain hn' => cases hn.symm.trans hn'
    | inline hn' _ hr | inclusion hn' _ _ hr | container hn' _ _ _ _ _ hr =>
      cases hn.symm.trans hn'
      obtain ⟨block, hb, htag, hl⟩ := ih hr
      exact ⟨block, nested_append.2 (.inr (nested_cons.2 (.inr (.inr hb)))), htag, hl⟩
  | inside hn hk hu _ ih =>
    cases hp with
    | plain hn' => cases hn.symm.trans hn'
    | inline hn' hk' =>
      cases hn.symm.trans hn'
      cases hk.symm.trans hk'
    | inclusion hn' hk' =>
      cases hn.symm.trans hn'
      cases hk.symm.trans hk'
      cases hu
    | container hn' _ _ _ _ hb _ =>
      cases hn.symm.trans hn'
      obtain ⟨block, hblock, htag, hl⟩ := ih hb
      refine ⟨block, .inside (List.mem_append_right _ List.mem_cons_self) ?_, htag, hl⟩
      rw [Header.body_block]
      exact nested_append.2 (.inl hblock)

theorem blockNesting_le_nesting (h : block ∈ blocks) : blockNesting block ≤ nesting blocks := by
  induction blocks with
  | nil => cases h
  | cons b bs ih =>
    simp only [nesting]
    rcases List.mem_cons.1 h with rfl | h
    · exact Nat.le_max_left _ _
    · exact Nat.le_trans (ih h) (Nat.le_max_right _ _)

theorem blockNesting_eq (h : block.tag? = some t) (ht : t.isContainer = true) :
    blockNesting block = nesting block.body + 1 := by
  cases block with
  | loop | cond | static => rfl
  | text | inline => cases h
  | inclusion =>
    cases h
    cases ht

/-- A container inside of `d` others makes the blocks nested deeper than that. -/
theorem Nested.lt_nesting (h : Nested blocks d block) (ht : block.tag? = some t)
    (hc : t.isContainer = true) : d < nesting blocks := by
  induction h with
  | here hb =>
    have := blockNesting_le_nesting hb
    rw [blockNesting_eq ht hc] at this
    omega
  | @inside _ outer _ _ ho h ih =>
    have := ih ht
    have := blockNesting_le_nesting ho
    cases outer with
    | loop | cond | static =>
      simp only [blockNesting, Block.body] at *
      omega
    | text | inline | inclusion => exact absurd h not_nested_nil

/-! ## Other errors -/

/-- The error says that containers are nested too deep. -/
def MarkupError.OfDepth (e : MarkupError) : Prop := ∃ n l, e = .depthExceeded n l

theorem findCloser_not_ofDepth {owner : Location} {pending : Nat}
    (h : findCloser t owner pending here cs = .error e) : ¬ e.OfDepth := by
  rintro ⟨n, l, rfl⟩
  fun_induction findCloser t owner pending here cs with
  | case1 => cases h
  | case2 => cases h
  | case3 _ _ _ _ _ _ _ _ _ _ _ _ _ ih => exact ih (map_eq_error_iff.1 h)
  | case4 => cases h
  | case5 _ _ _ _ _ _ _ _ ih => exact ih (map_eq_error_iff.1 h)

theorem next_not_ofDepth (h : Construct.next here cs = .error e) : ¬ e.OfDepth := by
  unfold Construct.next at h
  split at h
  · cases h
  · cases h
  · have h := map_eq_error_iff.1 h
    unfold Construct.ofTag at h
    dsimp only at h
    split at h
    · cases h
      rintro ⟨n, l, hl⟩
      cases hl
    · split at h
      · cases h
      · exact findCloser_not_ofDepth (map_eq_error_iff.1 h)

theorem required_not_ofDepth {name : String} (h : required k t l name = .error e) :
    ¬ e.OfDepth := by
  unfold required at h
  split at h
  · cases h
  · cases h
    rintro ⟨n, l, hl⟩
    cases hl

theorem readInclusion_not_ofDepth (h : readInclusion k l = .error e) : ¬ e.OfDepth :=
  required_not_ofDepth (map_eq_error_iff.1 h)

theorem readHeader_not_ofDepth (h : readHeader k t l = .error e) : ¬ e.OfDepth := by
  cases t with
  | loop =>
    simp only [readHeader] at h
    cases hv : required k .loop l "var" with
    | error e' =>
      rw [hv] at h
      cases h
      exact required_not_ofDepth hv
    | ok variableName =>
      cases hc : required k .loop l "in" with
      | error e' =>
        rw [hv, hc] at h
        cases h
        exact required_not_ofDepth hc
      | ok collection =>
        rw [hv, hc] at h
        dsimp only at h
        split at h
        · cases h
        · cases h
          rintro ⟨n, l, hl⟩
          cases hl
  | cond => exact required_not_ofDepth (map_eq_error_iff.1 h)
  | static => cases h
  | inclusion => cases h

/-! ## Where the limit is exceeded -/

/-- Why a construct cannot be read. -/
theorem readBlock_error_inv (h : readBlock o depth here k = .error e) (he : e.OfDepth) :
    ∃ t, k.kind = .tag t ∧ t.isContainer = true ∧
      (o.maxDepth < depth + 1 ∧ e = .depthExceeded o.maxDepth (k.location here) ∨
        depth + 1 ≤ o.maxDepth ∧
          parseBlocks o (depth + 1) ((k.bodyLocation here).after (o.trimming k.body).lead)
            (o.trimming k.body).main = .error e) := by
  unfold readBlock at h
  split at h
  · cases h
  · exact absurd he (readInclusion_not_ofDepth h)
  · rename_i t ht hk
    refine ⟨t, hk, Tag.isContainer_of_ne_inclusion ht, ?_⟩
    split at h
    · rename_i hh
      cases h
      exact absurd he (readHeader_not_ofDepth hh)
    · split at h
      · rename_i hd
        cases h
        exact .inl ⟨hd, rfl⟩
      · rename_i hd
        exact .inr ⟨Nat.not_lt.1 hd, map_eq_error_iff.1 h⟩

/-- The limit that is reported is that of the options, and the tag is inside of as many containers
as the limit still allowed. -/
theorem depthExceeded_inv (h : parseBlocks o depth here cs = .error (.depthExceeded n l))
    (hd : depth ≤ o.maxDepth) :
    n = o.maxDepth ∧ ∃ d t, depth + d = o.maxDepth ∧ ContainerAt o.trimming here cs d t l := by
  -- body and rest of a construct are shorter than the text
  induction hl : cs.length using Nat.strongRecOn generalizing depth here cs with
  | ind m ih =>
    subst hl
    cases hn : Construct.next here cs with
    | error e =>
      cases (parseBlocks_error hn).symm.trans h
      exact absurd ⟨n, l, rfl⟩ (next_not_ofDepth hn)
    | ok found =>
      cases found with
      | none => cases (parseBlocks_none hn).symm.trans h
      | some k =>
        rw [parseBlocks_step hn] at h
        cases hb : readBlock o depth here k with
        | error e =>
          rw [hb] at h
          cases h
          obtain ⟨t, hk, ht, ⟨hlt, he⟩ | ⟨hle, he⟩⟩ := readBlock_error_inv hb ⟨n, l, rfl⟩
          · cases he
            exact ⟨rfl, 0, t, by omega, .here hn hk ht⟩
          · obtain ⟨hm, d, u, hdepth, hat⟩ := ih _ (Construct.length_main_lt o hn) he hle rfl
            exact ⟨hm, d + 1, u, by omega, .inside hn hk ht hat⟩
        | ok block =>
          rw [hb] at h
          obtain ⟨hm, d, u, hdepth, hat⟩ :=
            ih _ (Construct.length_after_lt hn) (map_eq_error_iff.1 h) hd rfl
          exact ⟨hm, d, u, hdepth, .after hn hat⟩

/-- A limit as long as the text is not exceeded. -/
theorem parseBlocks_ne_depthExceeded (h : depth + cs.length ≤ o.maxDepth) :
    parseBlocks o depth here cs ≠ .error (.depthExceeded n l) := by
  intro he
  obtain ⟨-, d, t, hd, hat⟩ := depthExceeded_inv he (by omega)
  have := hat.lt_length
  omega

/-! ## Two limits -/

/-- A construct is read in the same way with a higher limit, or it is too deep for the lower one, if
that is so for its body. -/
theorem readBlock_limit (hl : o.maxDepth ≤ limit)
    (hbody : ∀ here,
      parseBlocks o (depth + 1) here (o.trimming k.body).main =
        parseBlocks { o with maxDepth := limit } (depth + 1) here (o.trimming k.body).main ∨
      ∃ l, parseBlocks o (depth + 1) here (o.trimming k.body).main =
        .error (.depthExceeded o.maxDepth l)) :
    readBlock o depth here k = readBlock { o with maxDepth := limit } depth here k ∨
      ∃ l, readBlock o depth here k = .error (.depthExceeded o.maxDepth l) := by
  have htrimming : ({ o with maxDepth := limit } : ParseOptions).trimming = o.trimming := rfl
  unfold readBlock
  split
  · exact .inl rfl
  · exact .inl rfl
  · split
    · exact .inl rfl
    · by_cases hd : depth + 1 > o.maxDepth
      · exact .inr ⟨_, if_pos hd⟩
      · have hd' : ¬ depth + 1 > limit := by omega
        simp only [if_neg hd, if_neg hd', htrimming]
        rcases hbody ((k.bodyLocation here).after (o.trimming k.body).lead) with h | ⟨l, h⟩
        · rw [h]
          exact .inl rfl
        · rw [h]
          exact .inr ⟨l, rfl⟩

/-- A text is read in the same way with a higher limit, or it is too deep for the lower one. -/
theorem parseBlocks_limit (hl : o.maxDepth ≤ limit) :
    parseBlocks o depth here cs = parseBlocks { o with maxDepth := limit } depth here cs ∨
      ∃ l, parseBlocks o depth here cs = .error (.depthExceeded o.maxDepth l) := by
  induction hlen : cs.length using Nat.strongRecOn generalizing depth here cs with
  | ind m ih =>
    subst hlen
    cases hn : Construct.next here cs with
    | error e =>
      rw [parseBlocks_error hn, parseBlocks_error hn]
      exact .inl rfl
    | ok found =>
      cases found with
      | none =>
        rw [parseBlocks_none hn, parseBlocks_none hn]
        exact .inl rfl
      | some k =>
        rw [parseBlocks_step hn, parseBlocks_step hn]
        rcases readBlock_limit hl fun _ => ih _ (Construct.length_main_lt o hn) rfl with
          hb | ⟨l, hb⟩
        · rw [← hb]
          cases readBlock o depth here k with
          | error e => exact .inl rfl
          | ok block =>
            rcases ih _ (Construct.length_after_lt hn) rfl with hr | ⟨l, hr⟩
            · dsimp only
              rw [hr]
              exact .inl rfl
            · dsimp only
              rw [hr]
              exact .inr ⟨l, rfl⟩
        · rw [hb]
          exact .inr ⟨l, rfl⟩

/-- Two limits that are as long as the text make no difference. -/
theorem parseBlocks_long (h : depth + cs.length ≤ o.maxDepth) (hl : depth + cs.length ≤ limit) :
    parseBlocks o depth here cs = parseBlocks { o with maxDepth := limit } depth here cs := by
  rcases Nat.le_total o.maxDepth limit with hle | hle
  · rcases parseBlocks_limit hle with heq | ⟨l, he⟩
    · exact heq
    · exact absurd he (parseBlocks_ne_depthExceeded h)
  · rcases parseBlocks_limit (o := { o with maxDepth := limit }) hle with heq | ⟨l, he⟩
    · exact heq.symm
    · exact absurd he (parseBlocks_ne_depthExceeded hl)

/-- Compared with a limit that is never exceeded, a limit makes no difference or is exceeded. -/
theorem parseBlocks_limited (hl : depth + cs.length ≤ limit) :
    parseBlocks o depth here cs = parseBlocks { o with maxDepth := limit } depth here cs ∨
      ∃ l, parseBlocks o depth here cs = .error (.depthExceeded o.maxDepth l) := by
  rcases Nat.le_total o.maxDepth limit with hle | hle
  · exact parseBlocks_limit hle
  · exact .inl (parseBlocks_long (Nat.le_trans hl hle) hl)

end

/-- A limit on the depth cuts exactly at the limit. Compared with a reading whose limit is at least
as long as the source, which is never exceeded, a template has the same tree if that is not nested
deeper than the limit, and none if it is. All other errors are the same. The limit is exceeded only
at the tag of a container that is inside of just as many containers as it says, in the text and also
in the tree, if there is one. -/
theorem parse_limit (o : ParseOptions) (source : String) (unlimited : Nat)
    (hu : source.toList.length ≤ unlimited) :
    let whole := parse { o with maxDepth := unlimited } source
    (∀ blocks, parse o source = .ok blocks ↔
      whole = .ok blocks ∧ nesting blocks ≤ o.maxDepth) ∧
    (∀ e, parse o source = .error e → (∀ n l, e ≠ .depthExceeded n l) → whole = .error e) ∧
    (∀ n l, parse o source = .error (.depthExceeded n l) →
      n = o.maxDepth ∧ ∃ t, t.isContainer = true ∧
        ContainerAt o.trimming Location.start source.toList o.maxDepth t l ∧
        ∀ blocks, whole = .ok blocks →
          ∃ block, Nested blocks o.maxDepth block ∧ block.tag? = some t ∧ block.location = l) ∧
    ∀ n l, whole ≠ .error (.depthExceeded n l) := by
  intro whole
  rw [← Nat.zero_add source.toList.length] at hu
  have hcut : ∀ {n l}, parse o source = .error (.depthExceeded n l) → n = o.maxDepth ∧
      ∃ t, ContainerAt o.trimming Location.start source.toList o.maxDepth t l := by
    intro n l h
    obtain ⟨hn, d, t, hd, hat⟩ := depthExceeded_inv h (Nat.zero_le _)
    rw [Nat.zero_add] at hd
    exact ⟨hn, t, hd ▸ hat⟩
  have hblock : ∀ {t l blocks},
      ContainerAt o.trimming Location.start source.toList o.maxDepth t l → whole = .ok blocks →
      ∃ block, Nested blocks o.maxDepth block ∧ block.tag? = some t ∧ block.location = l := by
    intro t l blocks hat h
    have hat : ContainerAt ({ o with maxDepth := unlimited } : ParseOptions).trimming
        Location.start source.toList o.maxDepth t l := hat
    exact hat.nested (parses_of_parseBlocks h)
  have hsame : parse o source = whole ∨
      ∃ l, parse o source = .error (.depthExceeded o.maxDepth l) := parseBlocks_limited hu
  refine ⟨fun blocks => ⟨fun h => ?_, fun ⟨h, hn⟩ => ?_⟩, fun e h he => ?_, fun n l h => ?_,
    fun n l => parseBlocks_ne_depthExceeded hu⟩
  · have hnesting := (parses_of_parseBlocks h).nesting_le (Nat.zero_le _)
    rw [Nat.zero_add] at hnesting
    rcases hsame with hsame | ⟨l, hl⟩
    · exact ⟨hsame.symm.trans h, hnesting⟩
    · cases hl.symm.trans h
  · rcases hsame with hsame | ⟨l, hl⟩
    · exact hsame.trans h
    · obtain ⟨-, t, hat⟩ := hcut hl
      obtain ⟨block, hb, ht, -⟩ := hblock hat h
      exact absurd (hb.lt_nesting ht hat.isContainer) (Nat.not_lt.2 hn)
  · rcases hsame with hsame | ⟨l, hl⟩
    · exact hsame.symm.trans h
    · cases hl.symm.trans h
      exact absurd rfl (he _ l)
  · obtain ⟨hn, t, hat⟩ := hcut h
    exact ⟨hn, t, hat.isContainer, hat, fun blocks => hblock hat⟩

/-- A loop in a static block, and another static block behind the loop. -/
def looped : String := "<static>\n<for var:'x' in:'xs'/>\n<static/></static>"

/-- The blocks of `looped`, where bodies are trimmed. -/
def loopedBlocks : List Block :=
  [.static ⟨1, 1, 0⟩ "<for var:'x' in:'xs'/>\n<static/>"
    [.loop ⟨2, 1, 9⟩ "x" "xs" [("in", "xs"), ("var", "x")] "" [], .text ⟨2, 23, 31⟩ "\n",
      .static ⟨3, 1, 32⟩ "" []]]

/-- With a limit of one, the loop is too deep: it is inside of one container. A limit of two has the
tree of any limit from 50 on. -/
theorem parse_limit_looped :
    looped.toList.length ≤ 50 ∧ parse ⟨1, true⟩ looped = .error (.depthExceeded 1 ⟨2, 1, 9⟩) ∧
      (∃ t, t.isContainer = true ∧ ContainerAt (ParseOptions.trimming ⟨1, true⟩) Location.start
        looped.toList 1 t ⟨2, 1, 9⟩) ∧
      nesting loopedBlocks ≤ 2 ∧ parse ⟨2, true⟩ looped = .ok loopedBlocks := by
  have hlength : looped.toList.length ≤ 50 := by decide +kernel
  have hdeep : parse ⟨1, true⟩ looped = .error (.depthExceeded 1 ⟨2, 1, 9⟩) :=
    eq_error_of_error? (by decide +kernel)
  have hlong : parse ⟨50, true⟩ looped = .ok loopedBlocks := eq_ok_of_toOption (by decide +kernel)
  have hnesting : nesting loopedBlocks ≤ 2 := by decide
  obtain ⟨-, -, hcut, -⟩ := parse_limit ⟨1, true⟩ looped 50 hlength
  obtain ⟨-, t, ht, hat, -⟩ := hcut 1 _ hdeep
  obtain ⟨hiff, -⟩ := parse_limit ⟨2, true⟩ looped 50 hlength
  exact ⟨hlength, hdeep, ⟨t, ht, hat⟩, hnesting, (hiff loopedBlocks).2 ⟨hlong, hnesting⟩⟩

end Stencil.Markup
