import Stencil.Proofs.Markup.Closing

/-!
# Texts in which tags are balanced

The search for a closing tag reads plain characters: it does not know the expressions and the tags
of other kinds that it comes across, and takes what is written in them for tags as well. What such a
text does to the search is known from the text alone. If the search, begun in front of the text with
a closing tag written behind it, ends at this closing tag (`Balanced`), then every search passes
over the text, wherever it stands and however many tags are open (`Balanced.skipped`). A text in
which no opening tag of the kind begins and no closing tag stands is balanced (`Free.balanced`).
-/

namespace Stencil.Markup

open Stencil.Text

/-! ## Texts without tags of a kind -/

/-- No closing tag of the kind stands in the text, and no opening tag of the kind begins in it. -/
structure Free (t : Tag) (x : List Char) : Prop where
  closer : ¬ t.closer <:+: x
  opener : ∀ c, Tag.endsName c = true → ¬ t.opener ++ [c] <:+: x

/-- No tag can begin in `x` and end in `rest`: either `rest` begins with the first character of a
construct, or `x` ends with the last character of one. -/
def Apart (x rest : List Char) : Prop :=
  (∀ c ∈ rest.head?, c ∈ ['<', '$']) ∨ ∀ c ∈ x.getLast?, c ∈ ['>', '}']

section

variable {t : Tag} {x y cs rest tail before after : List Char}

theorem Apart.of_isSuffix (h : Apart x rest) (hs : y <:+ x) : Apart y rest := by
  refine h.imp_right fun hl c hc => hl c ?_
  obtain ⟨z, rfl⟩ := hs
  rw [List.getLast?_append, Option.mem_def.1 hc]
  rfl

theorem apart_angle (x rest : List Char) : Apart x ('<' :: rest) := by
  left
  rintro c ⟨⟩
  decide

/-- A word that begins where a text ends with no tag across its end stands in the text. -/
theorem Apart.isPrefix {word : List Char} (h : Apart x rest) (hx : x ≠ [])
    (htail : ∀ c ∈ ['<', '$'], c ∉ word.tail) (hinit : ∀ c ∈ ['>', '}'], c ∉ word.dropLast)
    (hw : word <+: x ++ rest) : word <+: x := by
  rcases h with h | h
  · exact isPrefix_of_append hx (fun c hc => htail c (h c hc)) hw
  · exact isPrefix_of_append_of_getLast? hx (fun c hc => hinit c (h c hc)) hw

theorem Apart.closer_isPrefix (h : Apart x rest) (hx : x ≠ [])
    (hw : t.closer <+: x ++ rest) : t.closer <+: x :=
  h.isPrefix hx (by cases t <;> simp [Tag.closer, Tag.word])
    (by cases t <;> simp [Tag.closer, Tag.word]) hw

theorem Apart.opener_isPrefix {c : Char} (hc : Tag.endsName c = true) (h : Apart x rest)
    (hx : x ≠ []) (hw : t.opener ++ [c] <+: x ++ rest) : t.opener ++ [c] <+: x := by
  have hends : ∀ d ∈ ['<', '$'], Tag.endsName d = false := by
    simp only [List.forall_mem_cons]
    exact ⟨by decide, by decide, nofun⟩
  have hword : ∀ d ∈ ['<', '$'], d ∉ t.word := by cases t <;> simp [Tag.word]
  have hinit : ∀ d ∈ ['>', '}'], d ∉ t.opener := by cases t <;> simp [Tag.opener, Tag.word]
  refine h.isPrefix hx (fun d hd hmem => ?_) (by rwa [List.dropLast_concat]) hw
  rcases List.mem_append.1 (show d ∈ t.word ++ [c] from hmem) with hmem | hmem
  · exact hword d hd hmem
  · obtain rfl := List.mem_singleton.1 hmem
    exact Bool.false_ne_true ((hends d hd).symm.trans hc)

theorem Tag.strip_ne_none_iff :
    t.strip cs ≠ none ↔ ∃ c, endsName c = true ∧ t.opener ++ [c] <+: cs := by
  rw [Option.ne_none_iff_exists']
  constructor
  · rintro ⟨rest, h⟩
    obtain ⟨c, r, he, -, rfl⟩ := strip_eq_some_iff.1 h
    exact ⟨c, he, r, by simp⟩
  · rintro ⟨c, he, r, rfl⟩
    exact ⟨c :: r, strip_eq_some_iff.2 ⟨c, r, he, rfl, by simp⟩⟩

theorem stripWord_ne_none {word : List Char} (h : word <+: cs) : stripWord word cs ≠ none := by
  obtain ⟨rest, rfl⟩ := h
  rw [stripWord_append]
  exact Option.some_ne_none _

/-- A text without tags of the kind is passed over, if no tag goes over its end. -/
theorem Free.passable (h : Free t x) (ha : Apart x rest) : Throughout (Passable t) x rest := by
  refine throughout_iff.2 fun y hy hs => ⟨?_, ?_⟩
  · refine Option.eq_none_iff_forall_ne_some.2 fun r hr => h.closer ?_
    have hw : t.closer <+: y ++ rest := ⟨r, (stripWord_eq hr).symm⟩
    exact ((ha.of_isSuffix hs).closer_isPrefix hy hw).isInfix.trans hs.isInfix
  · refine Decidable.byContradiction fun hne => ?_
    obtain ⟨c, hc, hw⟩ := Tag.strip_ne_none_iff.1 hne
    have hw := (ha.of_isSuffix hs).opener_isPrefix hc hy hw
    exact h.opener c hc (hw.isInfix.trans hs.isInfix)

theorem not_isInfix_of_throughout {word : List Char} (hne : word ≠ [])
    (h : Throughout (stripWord word · = none) x rest) : ¬ word <:+: x := by
  rintro ⟨a, b, rfl⟩
  rw [List.append_assoc] at h
  have hplace := throughout_iff.1 h (word ++ b) (by simp [hne]) ⟨a, rfl⟩
  refine stripWord_ne_none ?_ hplace
  rw [List.append_assoc]
  exact List.prefix_append _ _

theorem opener_not_isInfix {c : Char} (h : Throughout (t.strip · = none) x rest)
    (hc : Tag.endsName c = true) : ¬ t.opener ++ [c] <:+: x := by
  rintro ⟨a, b, rfl⟩
  rw [List.append_assoc] at h
  have hplace := throughout_iff.1 h (t.opener ++ [c] ++ b) (by simp) ⟨a, rfl⟩
  refine Tag.strip_ne_none_iff.2 ⟨c, hc, ?_⟩ hplace
  rw [List.append_assoc]
  exact List.prefix_append _ _

/-- No tag of the kind stands in a text that is passed over. -/
theorem free_of_throughout (hclose : Throughout (stripWord t.closer · = none) x rest)
    (hopen : Throughout (t.strip · = none) x tail) : Free t x :=
  ⟨not_isInfix_of_throughout (List.cons_ne_nil _ _) hclose, fun _ => opener_not_isInfix hopen⟩

/-! ## What the search has seen -/

theorem throughout_of_splitAtWord {word : List Char}
    (h : splitAtWord word cs = some (before, after)) :
    Throughout (stripWord word · = none) before (word ++ after) := by
  induction cs generalizing before with
  | nil =>
    obtain ⟨_, _, he⟩ := Option.map_eq_some_iff.1 h
    cases he
    trivial
  | cons c cs ih =>
    have hcs := splitAtWord_eq h
    rw [splitAtWord] at h
    split at h
    · cases h
      trivial
    · rename_i hnone
      obtain ⟨p, hp, he⟩ := Option.map_eq_some_iff.1 h
      cases he
      refine ⟨?_, ih hp⟩
      rwa [hcs, List.append_assoc] at hnone

theorem Tag.throughout_of_find?_eq_none (h : t.find? cs = none) :
    Throughout (t.strip · = none) cs [] := by
  induction cs with
  | nil => trivial
  | cons c cs ih =>
    unfold find? at h
    split at h
    · cases h
    · rename_i hnone
      exact ⟨by rwa [List.append_nil], ih (Option.map_eq_none_iff.1 h)⟩

theorem Tag.throughout_of_find?_eq_some (h : t.find? cs = some (before, rest)) :
    Throughout (t.strip · = none) before (t.opener ++ rest) := by
  induction cs generalizing before with
  | nil => cases h
  | cons c cs ih =>
    have hcs := find?_eq h
    unfold find? at h
    split at h
    · cases h
      trivial
    · rename_i hnone
      obtain ⟨p, hp, he⟩ := Option.map_eq_some_iff.1 h
      cases he
      refine ⟨?_, ih hp⟩
      rwa [hcs, List.append_assoc] at hnone

theorem Tag.strip_of_find? (h : t.find? cs = some (before, rest)) :
    t.strip (t.opener ++ rest) = some rest := by
  induction cs generalizing before with
  | nil => cases h
  | cons c cs ih =>
    unfold find? at h
    split at h
    · rename_i hr
      cases h
      rwa [strip_eq hr] at hr
    · obtain ⟨p, hp, he⟩ := Option.map_eq_some_iff.1 h
      cases he
      exact ih hp

end

/-! ## Balanced texts -/

/-- Read by itself, every closing tag of the kind in the text closes a tag that was opened in it, and
every tag of the kind that is opened in the text is closed in it: the search for a closing tag that
begins before the text ends at the one behind it. -/
def Balanced (t : Tag) (x : List Char) : Prop :=
  findCloser t Location.start 0 Location.start (x ++ t.closer) = .ok (x, [])

instance (t : Tag) (x : List Char) : Decidable (Balanced t x) :=
  decidable_of_iff
    ((findCloser t Location.start 0 Location.start (x ++ t.closer)).toOption = some (x, []))
    ⟨eq_ok_of_toOption, fun h => by rw [h]; rfl⟩

section

variable {t : Tag} {x rest tail : List Char}

theorem pendingAfter_add (inner : List Char) (opened pending : Nat) :
    pendingAfter inner (opened + pending) = pendingAfter inner opened + pending := by
  unfold pendingAfter
  split <;> omega

/-- A text that closes the tags that were opened before it, and those that it opens itself, is passed
over by a search that has still others to close. -/
theorem findCloser_of_closes {opened pending : Nat} {cs : List Char}
    {owner other here there : Location} (h : findCloser t owner opened here cs = .ok (x, []))
    (hx : ∀ c ∈ x.getLast?, c ∈ ['>', '}']) (hc : splitAtWord t.closer tail ≠ none) :
    findCloser t other (opened + pending) there (x ++ tail) =
      (findCloser t other pending (there.after x) tail).map (prepend x) := by
  have hlast {y z : List Char} (h : ∀ c ∈ (y ++ z).getLast?, c ∈ ['>', '}']) :
      ∀ c ∈ z.getLast?, c ∈ ['>', '}'] := by
    intro c hz
    refine h c ?_
    rw [List.getLast?_append, Option.mem_def.1 hz]
    rfl
  -- the search behind `x` takes the steps of the search in `x`
  fun_induction findCloser t owner opened here cs generalizing x there with
  | case1 => cases h
  | case2 => cases h
  | case3 opened here cs before after hs lead rest hf inner after' ho _ ih =>
    obtain ⟨⟨y, z⟩, hp, he⟩ := map_eq_ok_iff.1 h
    cases he
    have hi : IsInner inner := by
      have hstrip := Tag.strip_append (Tag.strip_of_find? hf) (t.closer ++ after)
      rw [← List.append_assoc rest] at hstrip
      exact isInner_of_strip hstrip ho
    have hfree : Free t lead := by
      have hclose := throughout_of_splitAtWord hs
      rw [Tag.find?_eq hf, List.append_assoc] at hclose
      exact free_of_throughout (throughout_append.1 hclose).1 (Tag.throughout_of_find?_eq_some hf)
    have hy : splitAtWord t.closer (y ++ tail) ≠ none := splitAtWord_append_ne_none y hc
    have hopen := splitAtWord_append_ne_none (t.openTag inner) hy
    have hlead : Throughout (Passable t) lead (t.openTag inner ++ (y ++ tail)) :=
      hfree.passable (apart_angle _ _)
    simp only [List.append_assoc]
    rw [findCloser_append hlead hopen, findCloser_openTag hi hopen, pendingAfter_add,
      ih hp (hlast hx)]
    simp only [map_map_prepend, Location.after_append]
  | case4 here cs before after hs hf =>
    cases h
    have hfree := free_of_throughout (throughout_of_splitAtWord hs)
      (Tag.throughout_of_find?_eq_none hf)
    rw [Nat.zero_add]
    exact findCloser_append (hfree.passable (.inr hx)) hc
  | case5 here cs before after hs hf opened _ ih =>
    obtain ⟨⟨y, z⟩, hp, he⟩ := map_eq_ok_iff.1 h
    cases he
    have hfree := free_of_throughout (throughout_of_splitAtWord hs)
      (Tag.throughout_of_find?_eq_none hf)
    have hy : splitAtWord t.closer (y ++ tail) ≠ none := splitAtWord_append_ne_none y hc
    have hclose := splitAtWord_append_ne_none t.closer hy
    have hbefore : Throughout (Passable t) before (t.closer ++ (y ++ tail)) :=
      hfree.passable (apart_angle _ _)
    have hcount : opened.succ + pending = opened + pending + 1 := by omega
    simp only [List.append_assoc]
    rw [findCloser_append hbefore hclose, hcount, findCloser_closer_succ, ih hp (hlast hx)]
    simp only [map_map_prepend, Location.after_append]

/-- A balanced text is passed over, if no tag goes over its end. -/
theorem Balanced.skipped (h : Balanced t x) (hx : ∀ c ∈ x.getLast?, c ∈ ['>', '}']) :
    Skipped t x tail := by
  intro owner pending here hc
  have hskip : findCloser t owner (0 + pending) here (x ++ tail) = _ :=
    findCloser_of_closes h hx hc
  rwa [Nat.zero_add] at hskip

/-- A text without tags is balanced. -/
theorem Free.balanced (h : Free t x) : Balanced t x := by
  have hp : Throughout (Passable t) x (t.closer ++ []) := h.passable (apart_angle x _)
  have := (Skipped.of_passable hp).findCloser Location.start Location.start
  rwa [List.append_nil] at this

end

end Stencil.Markup
