import Stencil.Proofs.Markup.AttributeList
import Stencil.Proofs.Markup.Balance
import Stencil.Proofs.Markup.Range

/-!
# The closing tag of a container, event by event

The tags of one kind in a text can be read one after the other (`Reads`). Each time the tag that
comes first is an event (`Next`): it is a closing tag, or an opening tag up to its first `>` outside
quotes, and what its quotes hold is no tag. `openAfter` counts the tags that are open after events.

The search for the closing tag of a container looks for a closing tag first and only then for
opening tags before it. It finds the closing tag at which the count comes to zero for the first
time. It fails if no closing tag is left before that, or if an opening tag comes first that does not
end (`findCloser_eq_ok_iff`, `findCloser_eq_error_iff`, and in a range of a source
`closingExtent_events`).
-/

namespace Stencil.Markup

open Stencil.Text

/-! ## The end of an opening tag -/

/-- In this text every quote is closed, and every `>` stands in quotes. -/
inductive AnglesQuoted : List Char → Prop
  | nil : AnglesQuoted []
  | plain {c : Char} {cs : List Char} (hq : c ≠ '\x27') (ha : c ≠ '>') (h : AnglesQuoted cs) :
    AnglesQuoted (c :: cs)
  /-- A quoted text, in which a backslash hides the character behind it. -/
  | quoted {value cs : List Char} (hv : Attributes.IsRaw value) (h : AnglesQuoted cs) :
    AnglesQuoted ('\x27' :: (value ++ '\x27' :: cs))

section

variable {cs inner rest value : List Char}

theorem anglesQuoted_quote_iff :
    AnglesQuoted ('\x27' :: cs) ↔
      ∃ value tail, Attributes.IsRaw value ∧ AnglesQuoted tail ∧ cs = value ++ '\x27' :: tail := by
  constructor
  · rintro (_ | ⟨hq, -, -⟩ | ⟨hv, h⟩)
    · exact absurd rfl hq
    · exact ⟨_, _, hv, h, rfl⟩
  · rintro ⟨value, tail, hv, h, rfl⟩
    exact .quoted hv h

theorem splitOpening_raw (h : Attributes.IsRaw value) (cs : List Char) :
    splitOpening true (value ++ '\x27' :: cs) =
      (splitOpening false cs).map (prepend (value ++ ['\x27'])) := by
  induction h with
  | nil => rfl
  | plain hq hb _ ih =>
    rw [List.cons_append, splitOpening_plain fun _ => hb, if_neg hq, if_neg (by simp), ih,
      Option.map_map]
    rfl
  | escaped c _ ih =>
    rw [List.cons_append, List.cons_append, splitOpening, ih, Option.map_map]
    rfl

/-- The text of an opening tag goes on to the first `>` outside quotes. -/
theorem AnglesQuoted.splitOpening (h : AnglesQuoted inner) (rest : List Char) :
    splitOpening false (inner ++ '>' :: rest) = some (inner, rest) := by
  induction h with
  | nil => rfl
  | plain hq ha _ ih =>
    rw [List.cons_append, splitOpening_cons hq ha, ih]
    rfl
  | @quoted value cs hv _ ih =>
    have hs : '\x27' :: (value ++ '\x27' :: cs) ++ '>' :: rest =
        '\x27' :: (value ++ '\x27' :: (cs ++ '>' :: rest)) := by simp
    rw [hs, splitOpening_plain fun _ => by decide, if_pos rfl, Bool.not_false, splitOpening_raw hv,
      ih]
    simp [prepend]

theorem anglesQuoted_of_splitOpening {quoted : Bool}
    (h : splitOpening quoted cs = some (inner, rest)) :
    AnglesQuoted (if quoted then '\x27' :: inner else inner) := by
  fun_induction Markup.splitOpening quoted cs generalizing inner with
  | case1 => cases h
  | case2 => cases h
  | case3 c cs ih =>
    obtain ⟨p, hp, he⟩ := Option.map_eq_some_iff.1 h
    cases he
    obtain ⟨value, tail, hv, htail, hp⟩ := anglesQuoted_quote_iff.1 (ih hp)
    rw [hp]
    exact .quoted (.escaped c hv) htail
  | case4 quoted cs _ _ ih =>
    obtain ⟨p, hp, he⟩ := Option.map_eq_some_iff.1 h
    cases he
    have htail := ih hp
    cases quoted with
    | true => exact anglesQuoted_quote_iff.2 ⟨[], _, .nil, htail, rfl⟩
    | false => exact htail
  | case5 quoted c cs _ _ _ hc =>
    cases h
    obtain ⟨-, rfl⟩ : c = '>' ∧ quoted = false := by simpa using hc
    exact .nil
  | case6 quoted c cs h₁ h₂ hq hc ih =>
    obtain ⟨p, hp, he⟩ := Option.map_eq_some_iff.1 h
    cases he
    have htail := ih hp
    cases quoted with
    | true =>
      have hb : c ≠ '\\' := ne_of_not_escape (h₁ rfl) fun d ds => h₂ d ds rfl
      obtain ⟨value, tail, hv, htail, hp⟩ := anglesQuoted_quote_iff.1 htail
      rw [hp]
      exact .quoted (.plain hq hb hv) htail
    | false => exact .plain hq (by simpa using hc) htail

theorem splitOpening_eq_some_iff :
    splitOpening false cs = some (inner, rest) ↔
      AnglesQuoted inner ∧ cs = inner ++ '>' :: rest := by
  constructor
  · exact fun h => ⟨anglesQuoted_of_splitOpening h, splitOpening_eq h⟩
  · rintro ⟨h, rfl⟩
    exact h.splitOpening rest

theorem splitOpening_eq_none_iff :
    splitOpening false cs = none ↔
      ∀ inner rest, AnglesQuoted inner → cs ≠ inner ++ '>' :: rest := by
  rw [Option.eq_none_iff_forall_ne_some]
  constructor
  · exact fun h inner rest hinner hcs => h _ (splitOpening_eq_some_iff.2 ⟨hinner, hcs⟩)
  · rintro h ⟨inner, rest⟩ hs
    obtain ⟨hinner, hcs⟩ := splitOpening_eq_some_iff.1 hs
    exact h inner rest hinner hcs

end

instance (inner : List Char) : Decidable (AnglesQuoted inner) :=
  decidable_of_iff (splitOpening false (inner ++ ['>']) = some (inner, []))
    (splitOpening_eq_some_iff.trans (and_iff_left rfl))

/-! ## Events -/

/-- A tag of one kind in a text. -/
inductive Event where
  | closing
  /-- An opening tag with the text `inner` between its name and its `>`. -/
  | opening (inner : List Char)
deriving Repr, DecidableEq

namespace Event

/-- The text of the tag. -/
def text (t : Tag) : Event → List Char
  | closing => t.closer
  | opening inner => t.openTag inner

/-- How many more tags are open behind the tag. -/
def weight : Event → Int
  | closing => -1
  | opening inner => if isSelfClosing inner then 0 else 1

/-- The name of an opening tag is followed by a character that may end it, and the tag ends at its
first `>` outside quotes. -/
def WellFormed : Event → Prop
  | closing => True
  | opening inner =>
    (∀ c ∈ (inner ++ ['>']).head?, Tag.endsName c = true) ∧ AnglesQuoted inner

instance : (e : Event) → Decidable e.WellFormed
  | closing => inferInstanceAs (Decidable True)
  | opening inner =>
    decidable_of_iff
      ((inner ++ ['>']).head?.all Tag.endsName = true ∧ AnglesQuoted inner)
      (and_congr_left fun _ => Option.all_eq_true _ _)

end Event

/-- The tag of kind `t` that comes first in `cs` is `e`. It stands behind the text `lead` and in
front of the text `rest`. -/
structure Next (t : Tag) (cs lead : List Char) (e : Event) (rest : List Char) : Prop where
  eq : cs = lead ++ (e.text t ++ rest)
  passable : Throughout (Passable t) lead (e.text t ++ rest)
  wellFormed : e.WellFormed

theorem next_iff {t : Tag} {cs lead rest : List Char} {e : Event} :
    Next t cs lead e rest ↔ cs = lead ++ (e.text t ++ rest) ∧
      Throughout (Passable t) lead (e.text t ++ rest) ∧ e.WellFormed :=
  ⟨fun h => ⟨h.eq, h.passable, h.wellFormed⟩, fun h => ⟨h.1, h.2.1, h.2.2⟩⟩

instance (t : Tag) (cs lead rest : List Char) (e : Event) : Decidable (Next t cs lead e rest) :=
  decidable_of_iff' _ next_iff

/-- The tag of kind `t` that comes first in `cs` is an opening tag without a `>` outside quotes. It
stands behind the text `lead`. -/
def Unended (t : Tag) (cs lead : List Char) : Prop :=
  ∃ c tail, Tag.endsName c = true ∧ cs = lead ++ (t.opener ++ c :: tail) ∧
    Throughout (Passable t) lead (t.opener ++ c :: tail) ∧
    ∀ inner rest, AnglesQuoted inner → c :: tail ≠ inner ++ '>' :: rest

section

variable {t : Tag} {cs lead rest inner : List Char} {e : Event}

theorem Next.isInner (h : Next t cs lead (.opening inner) rest) : IsInner inner :=
  ⟨h.wellFormed.1, h.wellFormed.2.splitOpening⟩

/-- As long as there is a closing tag, some tag comes first. -/
theorem next_or_unended (h : t.closer <:+: cs) :
    (∃ lead e rest, Next t cs lead e rest) ∨ ∃ lead, Unended t cs lead := by
  obtain ⟨⟨before, after⟩, hs⟩ := Option.ne_none_iff_exists'.1 (splitAtWord_ne_none_iff.2 h)
  have hcs := splitAtWord_eq hs
  have hclose := throughout_of_splitAtWord hs
  cases hf : t.find? before with
  | none =>
    have hfree := free_of_throughout hclose (Tag.throughout_of_find?_eq_none hf)
    refine .inl ⟨before, .closing, after, ?_, hfree.passable (apart_angle _ _), trivial⟩
    rw [hcs, List.append_assoc]
    rfl
  | some p =>
    obtain ⟨lead, rest⟩ := p
    have hbefore := Tag.find?_eq hf
    rw [hbefore, List.append_assoc] at hclose
    have hfree := free_of_throughout (throughout_append.1 hclose).1
      (Tag.throughout_of_find?_eq_some hf)
    have hstrip := Tag.strip_append (Tag.strip_of_find? hf) (t.closer ++ after)
    rw [← List.append_assoc rest] at hstrip
    obtain ⟨c, tail, hc, htail, -⟩ := Tag.strip_eq_some_iff.1 hstrip
    rw [hbefore, List.append_assoc, List.append_assoc, ← List.append_assoc rest] at hcs
    cases ho : splitOpening false (rest ++ t.closer ++ after) with
    | some p =>
      obtain ⟨inner, mid⟩ := p
      obtain ⟨hinner, hmid⟩ := splitOpening_eq_some_iff.1 ho
      have hends := (isInner_of_strip hstrip ho).endsName
      refine .inl ⟨lead, .opening inner, mid, ?_, hfree.passable (apart_angle _ _), hends, hinner⟩
      rw [hcs, hmid]
      simp [Event.text, Tag.openTag]
    | none =>
      rw [htail] at ho hcs
      refine .inr ⟨lead, c, tail, hc, ?_, hfree.passable (apart_angle _ _),
        splitOpening_eq_none_iff.1 ho⟩
      rw [hcs, List.append_assoc]

end

/-! ## Readings -/

/-- The text `cs` can be read, one event after the other, up to the text `rest`. Each event comes
with the text in front of it. -/
inductive Reads (t : Tag) : List Char → List (List Char × Event) → List Char → Prop
  | nil {cs : List Char} : Reads t cs [] cs
  | cons {cs lead mid rest : List Char} {e : Event} {es : List (List Char × Event)}
    (hn : Next t cs lead e mid) (hr : Reads t mid es rest) : Reads t cs ((lead, e) :: es) rest

/-- The text that was read. -/
def written (t : Tag) (es : List (List Char × Event)) : List Char :=
  es.flatMap fun p => p.1 ++ p.2.text t

/-- The number of tags that are open after the events, if `n` tags are open before them. -/
def openAfter (n : Int) (es : List (List Char × Event)) : Int :=
  es.foldl (fun n p => n + p.2.weight) n

/-- Before the first event and after each one a tag is open. -/
def StaysOpen (n : Int) (es : List (List Char × Event)) : Prop :=
  ∀ first, first <+: es → 0 < openAfter n first

section

variable {t : Tag} {cs mid rest lead : List Char} {e : Event} {es fs : List (List Char × Event)}
  {n : Int}

@[simp] theorem written_nil (t : Tag) : written t [] = [] := rfl

@[simp] theorem written_cons :
    written t ((lead, e) :: es) = lead ++ e.text t ++ written t es :=
  List.flatMap_cons

@[simp] theorem openAfter_nil (n : Int) : openAfter n [] = n := rfl

@[simp] theorem openAfter_cons :
    openAfter n ((lead, e) :: es) = openAfter (n + e.weight) es := rfl

theorem openAfter_concat : openAfter n (es ++ [(lead, e)]) = openAfter n es + e.weight :=
  List.foldl_concat _ n (lead, e) es

theorem staysOpen_nil : StaysOpen n [] ↔ 0 < n := by
  simp [StaysOpen]

theorem staysOpen_cons :
    StaysOpen n ((lead, e) :: es) ↔ 0 < n ∧ StaysOpen (n + e.weight) es := by
  constructor
  · intro h
    refine ⟨by simpa using h [] List.nil_prefix, fun first hfirst => ?_⟩
    have := h ((lead, e) :: first) ((List.prefix_cons_inj _).2 hfirst)
    rwa [openAfter_cons] at this
  · rintro ⟨hn, h⟩ first hfirst
    rcases List.prefix_cons_iff.1 hfirst with rfl | ⟨more, rfl, hmore⟩
    · simpa using hn
    · simpa using h more hmore

theorem StaysOpen.pos (h : StaysOpen n es) : 0 < n := by
  simpa using h [] List.nil_prefix

theorem StaysOpen.openAfter_pos (h : StaysOpen n es) : 0 < openAfter n es :=
  h es List.prefix_rfl

theorem Reads.eq (h : Reads t cs es rest) : cs = written t es ++ rest := by
  induction h with
  | nil => rfl
  | cons hn _ ih =>
    rw [hn.eq, ih]
    simp

theorem reads_nil : Reads t cs [] rest ↔ cs = rest := by
  constructor
  · rintro ⟨⟩
    rfl
  · rintro rfl
    exact .nil

theorem reads_cons :
    Reads t cs ((lead, e) :: es) rest ↔
      Next t cs lead e (cs.drop (lead ++ e.text t).length) ∧
        Reads t (cs.drop (lead ++ e.text t).length) es rest := by
  constructor
  · rintro (_ | ⟨hn, hr⟩)
    rw [hn.eq, ← List.append_assoc, List.drop_left, List.append_assoc, ← hn.eq]
    exact ⟨hn, hr⟩
  · exact fun h => .cons h.1 h.2

theorem reads_append :
    Reads t cs (es ++ fs) rest ↔ ∃ mid, Reads t cs es mid ∧ Reads t mid fs rest := by
  induction es generalizing cs with
  | nil =>
    constructor
    · exact fun h => ⟨cs, .nil, h⟩
    · rintro ⟨mid, ⟨⟩, h⟩
      exact h
  | cons p es ih =>
    constructor
    · rintro (_ | ⟨hn, hr⟩)
      obtain ⟨mid, hes, hfs⟩ := ih.1 hr
      exact ⟨mid, .cons hn hes, hfs⟩
    · rintro ⟨mid, _ | ⟨hn, hes⟩, hfs⟩
      exact .cons hn (ih.2 ⟨mid, hes, hfs⟩)

theorem reads_concat :
    Reads t cs (es ++ [(lead, e)]) rest ↔ ∃ mid, Reads t cs es mid ∧ Next t mid lead e rest := by
  rw [reads_append]
  constructor
  · rintro ⟨mid, hes, _ | ⟨hn, ⟨⟩⟩⟩
    exact ⟨mid, hes, hn⟩
  · rintro ⟨mid, hes, hn⟩
    exact ⟨mid, hes, .cons hn .nil⟩

theorem Event.length_text_pos (t : Tag) (e : Event) : 0 < (e.text t).length := by
  cases e with
  | closing => simp [text, Tag.closer]
  | opening inner => simp [text, Tag.openTag, Tag.opener]

theorem Next.length_lt (h : Next t cs lead e rest) : rest.length < cs.length := by
  have := e.length_text_pos t
  rw [h.eq, List.length_append, List.length_append]
  omega

/-- A text has only so many events. -/
theorem Reads.length_le (h : Reads t cs es rest) : es.length + rest.length ≤ cs.length := by
  induction h with
  | nil => simp
  | cons hn _ ih =>
    have := hn.length_lt
    rw [List.length_cons]
    omega

end

instance decidableReads (t : Tag) : (es : List (List Char × Event)) → (cs rest : List Char) →
    Decidable (Reads t cs es rest)
  | [], cs, rest => decidable_of_iff (cs = rest) reads_nil.symm
  | (lead, e) :: es, cs, rest =>
    have := decidableReads t es (cs.drop (lead ++ e.text t).length) rest
    decidable_of_iff' _ reads_cons

instance decidableStaysOpen :
    (n : Int) → (es : List (List Char × Event)) → Decidable (StaysOpen n es)
  | _, [] => decidable_of_iff' _ staysOpen_nil
  | n, (_, e) :: es =>
    have := decidableStaysOpen (n + e.weight) es
    decidable_of_iff' _ staysOpen_cons

/-! ## The search reads events -/

section

variable {t : Tag} {cs lead mid rest : List Char} {e : Event} {es : List (List Char × Event)}
  {owner here : Location} {pending next : Nat}

theorem coe_pendingAfter (inner : List Char) (pending : Nat) :
    (pendingAfter inner pending : Int) = pending + (Event.opening inner).weight := by
  cases hs : isSelfClosing inner <;> simp [pendingAfter, Event.weight, hs]

/-- The search goes on behind the tag that comes first. -/
theorem Next.findCloser (h : Next t cs lead e mid) (hn : (next : Int) = pending + e.weight) :
    findCloser t owner pending here cs =
      (findCloser t owner next (here.after (lead ++ e.text t)) mid).map
        (prepend (lead ++ e.text t)) := by
  by_cases hc : splitAtWord t.closer (e.text t ++ mid) = none
  · -- there is no closing tag any more, neither in front of the tag nor behind it
    have hclose : Throughout (stripWord t.closer · = none) lead (e.text t ++ mid) :=
      h.passable.mono fun _ hp => hp.1
    have hcs : splitAtWord t.closer cs = none := by
      rw [h.eq, splitAtWord_append hclose, hc]
      rfl
    have hmid : splitAtWord t.closer mid = none :=
      Decidable.byContradiction fun hmid => splitAtWord_append_ne_none _ hmid hc
    rw [findCloser_unclosed hcs, findCloser_unclosed hmid]
    rfl
  · rw [h.eq, findCloser_append h.passable hc, Location.after_append, ← map_map_prepend]
    congr 1
    cases e with
    | closing =>
      obtain rfl : pending = next + 1 := by
        rw [Event.weight] at hn
        omega
      exact findCloser_closer_succ
    | opening inner =>
      obtain rfl : next = pendingAfter inner pending := by
        have := coe_pendingAfter inner pending
        omega
      exact findCloser_openTag h.isInner hc

/-- The search goes on behind the events that leave a tag open. -/
theorem Reads.findCloser (h : Reads t cs es rest) (hs : StaysOpen (pending + 1) es)
    (hn : (next : Int) + 1 = openAfter (pending + 1) es) :
    findCloser t owner pending here cs =
      (findCloser t owner next (here.after (written t es)) rest).map (prepend (written t es)) := by
  induction h generalizing pending here with
  | @nil cs =>
    obtain rfl : next = pending := by
      rw [openAfter_nil] at hn
      omega
    rw [written_nil, Location.after_nil]
    cases Markup.findCloser t owner next here cs <;> rfl
  | @cons cs lead mid rest e es hnext _ ih =>
    obtain ⟨-, hs⟩ := staysOpen_cons.1 hs
    rw [openAfter_cons] at hn
    -- a tag is open behind the event, so that what is pending there is a number
    have hpos := hs.pos
    obtain ⟨between, hb⟩ : ∃ between : Nat, (pending : Int) + e.weight = between :=
      Int.eq_ofNat_of_zero_le (by omega)
    have hcount : (pending : Int) + 1 + e.weight = between + 1 := by omega
    rw [hcount] at hs hn
    rw [hnext.findCloser hb.symm, ih hs hn]
    simp only [map_map_prepend, written_cons, Location.after_append]

theorem Unended.findCloser (h : Unended t cs lead) (hc : t.closer <:+: cs) :
    findCloser t owner pending here cs =
      .error (.malformedTag t .openEnded (here.after lead)) := by
  obtain ⟨c, tail, hends, rfl, hpassable, hunended⟩ := h
  have hclose : Throughout (stripWord t.closer · = none) lead (t.opener ++ c :: tail) :=
    hpassable.mono fun _ hp => hp.1
  rw [← splitAtWord_ne_none_iff, splitAtWord_append hclose, Ne, Option.map_eq_none_iff] at hc
  rw [findCloser_append hpassable hc,
    findCloser_opener hends hc (splitOpening_eq_none_iff.2 hunended)]
  rfl

end

/-! ## What the reading comes to -/

/-- Read with `n` open tags, `cs` comes to a closing tag that leaves none open, behind the text
`body` and in front of the text `rest`. -/
def Closes (t : Tag) (n : Int) (cs body rest : List Char) : Prop :=
  ∃ es lead, Reads t cs (es ++ [(lead, .closing)]) rest ∧ StaysOpen n es ∧
    openAfter n (es ++ [(lead, .closing)]) = 0 ∧ body = written t es ++ lead

/-- Read with `n` open tags, `cs` comes to a place behind which no closing tag stands. -/
def StaysUnclosed (t : Tag) (n : Int) (cs : List Char) : Prop :=
  ∃ es rest, Reads t cs es rest ∧ StaysOpen n es ∧ ¬ t.closer <:+: rest

/-- Read with `n` open tags, `cs` comes to an opening tag that does not end, behind the text
`before`, while there is a closing tag left. -/
def ComesToUnended (t : Tag) (n : Int) (cs before : List Char) : Prop :=
  ∃ es rest lead, Reads t cs es rest ∧ StaysOpen n es ∧ t.closer <:+: rest ∧
    Unended t rest lead ∧ before = written t es ++ lead

section

variable {t : Tag} {cs body rest before : List Char} {n : Int}
  {owner here : Location} {pending : Nat}

theorem Event.eq_closing {e : Event} (hn : 0 < n) (h : ¬ 0 < n + e.weight) :
    e = .closing ∧ n = 1 := by
  cases e with
  | closing =>
    rw [weight] at h
    exact ⟨rfl, by omega⟩
  | opening inner =>
    rw [weight] at h
    split at h <;> omega

/-- There are events that leave a tag open, and behind them no closing tag is left, or an opening
tag comes first that does not end, or a closing tag comes first and only one tag is open. -/
theorem exists_reads (t : Tag) (cs : List Char) (hn : 0 < n) :
    ∃ es rest, Reads t cs es rest ∧ StaysOpen n es ∧
      (¬ t.closer <:+: rest ∨ (t.closer <:+: rest ∧ ∃ lead, Unended t rest lead) ∨
        openAfter n es = 1 ∧ ∃ lead after, Next t rest lead .closing after) := by
  -- what stands behind the first tag is shorter
  induction hl : cs.length using Nat.strongRecOn generalizing n cs with
  | ind l ih =>
    subst hl
    have hnil : StaysOpen n [] := staysOpen_nil.2 hn
    by_cases hc : t.closer <:+: cs
    · rcases next_or_unended hc with ⟨lead, e, mid, hnext⟩ | hunended
      · by_cases hopen : 0 < n + e.weight
        · obtain ⟨es, rest, hr, hs, hend⟩ := ih _ hnext.length_lt mid hopen rfl
          refine ⟨(lead, e) :: es, rest, .cons hnext hr, staysOpen_cons.2 ⟨hn, hs⟩, ?_⟩
          rwa [openAfter_cons]
        · obtain ⟨rfl, hone⟩ := Event.eq_closing hn hopen
          refine ⟨[], cs, .nil, hnil, .inr (.inr ⟨?_, lead, mid, hnext⟩)⟩
          rwa [openAfter_nil]
      · exact ⟨[], cs, .nil, hnil, .inr (.inl ⟨hc, hunended⟩)⟩
    · exact ⟨[], cs, .nil, hnil, .inl hc⟩

/-- The reading comes to one of three ends. -/
theorem exists_end (t : Tag) (cs : List Char) (hn : 0 < n) :
    (∃ body rest, Closes t n cs body rest) ∨ StaysUnclosed t n cs ∨
      ∃ before, ComesToUnended t n cs before := by
  obtain ⟨es, rest, hr, hs, hnone | ⟨hclose, lead, hunended⟩ | ⟨hone, lead, after, hnext⟩⟩ :=
    exists_reads t cs hn
  · exact .inr (.inl ⟨es, rest, hr, hs, hnone⟩)
  · exact .inr (.inr ⟨_, es, rest, lead, hr, hs, hclose, hunended, rfl⟩)
  · refine .inl ⟨_, after, es, lead, reads_concat.2 ⟨rest, hr, hnext⟩, hs, ?_, rfl⟩
    rw [openAfter_concat, hone]
    rfl

theorem Closes.findCloser (h : Closes t (pending + 1) cs body rest) :
    findCloser t owner pending here cs = .ok (body, rest) := by
  obtain ⟨es, lead, hr, hs, hzero, rfl⟩ := h
  obtain ⟨mid, hes, hlast⟩ := reads_concat.1 hr
  have hcount : ((0 : Nat) : Int) + 1 = openAfter (pending + 1) es := by
    rw [openAfter_concat, Event.weight] at hzero
    omega
  have hclose := splitAtWord_closer_ne_none t [] rest
  rw [hes.findCloser hs hcount, hlast.eq, findCloser_append hlast.passable hclose,
    map_map_prepend]
  show (Markup.findCloser t owner 0 _ (t.closer ++ rest)).map _ = _
  rw [findCloser_closer_zero]
  simp [Except.map, prepend]

theorem StaysOpen.exists_pending {es : List (List Char × Event)} (h : StaysOpen n es) :
    ∃ next : Nat, (next : Int) + 1 = openAfter n es := by
  have := h.openAfter_pos
  exact ⟨(openAfter n es - 1).toNat, by omega⟩

theorem StaysUnclosed.findCloser (h : StaysUnclosed t (pending + 1) cs) :
    findCloser t owner pending here cs = .error (.malformedTag t .unclosed owner) := by
  obtain ⟨es, rest, hr, hs, hnone⟩ := h
  obtain ⟨next, hcount⟩ := hs.exists_pending
  have hnone : splitAtWord t.closer rest = none := by
    rwa [← splitAtWord_ne_none_iff, Ne, not_not] at hnone
  rw [hr.findCloser hs hcount, findCloser_unclosed hnone]
  rfl

theorem ComesToUnended.findCloser (h : ComesToUnended t (pending + 1) cs before) :
    findCloser t owner pending here cs =
      .error (.malformedTag t .openEnded (here.after before)) := by
  obtain ⟨es, rest, lead, hr, hs, hclose, hunended, rfl⟩ := h
  obtain ⟨next, hcount⟩ := hs.exists_pending
  rw [hr.findCloser hs hcount, hunended.findCloser hclose, Location.after_append]
  rfl

/-- The search finds the closing tag that leaves no tag open. -/
theorem findCloser_eq_ok_iff :
    findCloser t owner pending here cs = .ok (body, rest) ↔
      Closes t (pending + 1) cs body rest := by
  refine ⟨fun h => ?_, Closes.findCloser⟩
  have hn : (0 : Int) < pending + 1 := by omega
  rcases exists_end t cs hn with ⟨_, _, hend⟩ | hend | ⟨_, hend⟩
  · obtain ⟨rfl, rfl⟩ := Prod.mk.inj (Except.ok.inj (h.symm.trans hend.findCloser))
    exact hend
  · cases h.symm.trans hend.findCloser
  · cases h.symm.trans hend.findCloser

/-- The search fails at the tag to be closed or at an opening tag that does not end. -/
theorem findCloser_eq_error_iff {e : MarkupError} :
    findCloser t owner pending here cs = .error e ↔
      StaysUnclosed t (pending + 1) cs ∧ e = .malformedTag t .unclosed owner ∨
        ∃ before, ComesToUnended t (pending + 1) cs before ∧
          e = .malformedTag t .openEnded (here.after before) := by
  constructor
  · intro h
    have hn : (0 : Int) < pending + 1 := by omega
    rcases exists_end t cs hn with ⟨_, _, hend⟩ | hend | ⟨before, hend⟩
    · cases h.symm.trans hend.findCloser
    · exact .inl ⟨hend, Except.error.inj (h.symm.trans hend.findCloser)⟩
    · exact .inr ⟨before, hend, Except.error.inj (h.symm.trans hend.findCloser)⟩
  · rintro (⟨hend, rfl⟩ | ⟨before, hend, rfl⟩)
    · exact hend.findCloser
    · exact hend.findCloser

end

/-! ## The closing tag in a range -/

theorem ComesToUnended.exists_opener {t : Tag} {n : Int} {cs before : List Char}
    (h : ComesToUnended t n cs before) :
    ∃ c tail, Tag.endsName c = true ∧ cs = before ++ (t.opener ++ c :: tail) := by
  obtain ⟨es, rest, lead, hr, -, -, ⟨c, tail, hc, hrest, -⟩, rfl⟩ := h
  exact ⟨c, tail, hc, by rw [hr.eq, hrest, List.append_assoc]⟩

theorem ComesToUnended.isPrefix {t : Tag} {n : Int} {cs before : List Char}
    (h : ComesToUnended t n cs before) : before <+: cs := by
  obtain ⟨c, tail, -, hcs⟩ := h.exists_opener
  exact ⟨t.opener ++ c :: tail, hcs.symm⟩

/-- The search for the closing tag of a container in a source: the text `front` stands in front of
its opening tag, `cs` between the opening tag and the limit, and `after` behind the limit.

Let the tags of its kind be read one after the other from the end of the opening tag up to the
limit, with one tag open at first. The search finds the closing tag that leaves no tag open for the
first time. It fails at the opening tag of the container if no closing tag is left before that, and
at a nested opening tag if this one comes first and does not end before the limit. There are never
more tags to read than characters. -/
theorem closingExtent_events (t : Tag) (front opening cs after : List Char) :
    let source := front ++ opening ++ cs ++ after
    let start := utf8Length front
    let pos := utf8Length (front ++ opening)
    let limit := utf8Length (front ++ opening ++ cs)
    let found := closingExtent source t start limit 0 pos
    (∀ p, found = .ok p ↔ ∃ body rest, Closes t 1 cs body rest ∧
      p = (pos + utf8Length body, pos + utf8Length body + utf8Length t.closer)) ∧
    (∀ e, found = .error e ↔
      StaysUnclosed t 1 cs ∧
        e = .malformedTag t .unclosed (Location.ofOffset source start) ∨
      ∃ before, ComesToUnended t 1 cs before ∧
        e = .malformedTag t .openEnded (Location.ofOffset source (pos + utf8Length before))) ∧
    ∀ es rest, Reads t cs es rest → es.length + rest.length ≤ cs.length := by
  intro source start pos limit found
  have hcs : Stands source pos cs limit :=
    ⟨front ++ opening, after, rfl, rfl, (utf8Length_append _ _).symm⟩
  have howner : Stands source start (opening ++ cs) limit :=
    ⟨front, after, by simp [source], rfl, by simp [start, limit, Nat.add_assoc]⟩
  have hfound : found =
      (findCloser t (Location.ofOffset source start) 0 (Location.ofOffset source pos) cs).map
        fun p => (pos + utf8Length p.1, pos + utf8Length p.1 + utf8Length t.closer) := by
    have heq : closingExtent source t _ limit 0 _ = _ :=
      closingExtent_eq hcs.standsAt howner.standsAt.ofOffset_eq
    rwa [hcs.offset_ofOffset, howner.offset_ofOffset] at heq
  refine ⟨fun p => ?_, fun e => ?_, fun es rest => Reads.length_le⟩
  · rw [hfound, map_eq_ok_iff]
    constructor
    · rintro ⟨⟨body, rest⟩, hok, rfl⟩
      exact ⟨body, rest, findCloser_eq_ok_iff.1 hok, rfl⟩
    · rintro ⟨body, rest, hcloses, rfl⟩
      exact ⟨(body, rest), findCloser_eq_ok_iff.2 hcloses, rfl⟩
  · have hplace {before : List Char} (h : ComesToUnended t 1 cs before) :
        (Location.ofOffset source pos).after before =
          Location.ofOffset source (pos + utf8Length before) := by
      obtain ⟨tail, rfl⟩ := h.isPrefix
      have hbehind := hcs.standsAt.right.ofOffset_eq
      rw [Location.offset_after, hcs.offset_ofOffset] at hbehind
      exact hbehind.symm
    rw [hfound, map_eq_error_iff, findCloser_eq_error_iff]
    refine or_congr_right (exists_congr fun before => and_congr_right fun h => ?_)
    rw [hplace h]

/-- The events behind the first tag of `<if>a<if b:'</if>'/><if>c</if></if>`, without the last. -/
def veiledEvents : List (List Char × Event) :=
  [(['a'], .opening ([' ', 'b', ':', '\x27'] ++ Tag.cond.closer ++ ['\x27', '/'])),
    ([], .opening []), (['c'], .closing)]

/-- The closing tag between quotes is none. If the limit cuts off the last closing tag, none is left
for the first tag. If it stands in the quotes, the nested tag is the one at fault. -/
theorem closingExtent_veiled :
    let source := Tag.cond.openTag [] ++ written .cond veiledEvents ++ Tag.cond.closer
    closingExtent source .cond 0 35 0 4 = .ok (30, 35) ∧
    closingExtent source .cond 0 34 0 4 = .error (.malformedTag .cond .unclosed ⟨1, 1, 0⟩) ∧
    closingExtent source .cond 0 17 0 4 = .error (.malformedTag .cond .openEnded ⟨1, 6, 5⟩) := by
  intro source
  obtain ⟨hwhole, -⟩ := closingExtent_events .cond [] (Tag.cond.openTag [])
    (written .cond veiledEvents ++ Tag.cond.closer) []
  obtain ⟨-, hcut, -⟩ := closingExtent_events .cond [] (Tag.cond.openTag [])
    (written .cond veiledEvents ++ Tag.cond.closer.dropLast) ['>']
  obtain ⟨-, hquoted, -⟩ := closingExtent_events .cond [] (Tag.cond.openTag [])
    ((written .cond veiledEvents).take 13) ((written .cond veiledEvents).drop 13 ++ Tag.cond.closer)
  refine ⟨(hwhole _).2 ?_, (hcut _).2 (.inl ⟨?_, by decide⟩), (hquoted _).2 (.inr ?_)⟩
  · exact ⟨_, [], ⟨veiledEvents, [], by decide, by decide, by decide, rfl⟩, by decide⟩
  · exact ⟨veiledEvents, Tag.cond.closer.dropLast, by decide, by decide, by decide⟩
  · refine ⟨['a'], ⟨[], _, ['a'], .nil, by decide, by decide, ?_, rfl⟩, by decide⟩
    exact ⟨' ', _, by decide, rfl, by decide, splitOpening_eq_none_iff.1 (by decide)⟩

end Stencil.Markup
