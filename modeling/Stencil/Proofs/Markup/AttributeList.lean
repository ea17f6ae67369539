import Stencil.Markup.Search
import Stencil.Proofs.Markup.Opening
import Stencil.Proofs.Text.Pattern
import Stencil.Proofs.Text.WhiteSpace

/-!
# Which texts are attribute lists

`Written` is an attribute as it is written, and `Listed Between cs attributes` says that `cs` is a
list of attributes with white space around it, where `Between` says what may stand between two
neighbours.

* The reader of lists accepts a text exactly if it is such a list, whatever white space or single
  comma stands between the attributes, or nothing at all (`readList_eq_some_iff`).
* The search by the pattern begins anywhere and looks at the texts between its matches afterwards.
  It accepts the same texts and finds the same attributes (`search_eq_parse`).
* So a list is read with the last value of each name, and any other text has no attributes
  (`parse_listed`). A list whose neighbours touch is accepted, too (`parse_touching`).
-/

namespace Stencil.Markup.Attributes

open Stencil.Text Stencil.Text.Pattern

/-! ## Attributes as they are written -/

/-- A text that may stand between quotes: every quote has a backslash before it, and every backslash
has a character behind it. -/
inductive IsRaw : List Char → Prop
  | nil : IsRaw []
  | plain {c : Char} {cs : List Char} (hq : c ≠ '\x27') (hb : c ≠ '\\') (h : IsRaw cs) :
    IsRaw (c :: cs)
  | escaped (c : Char) {cs : List Char} (h : IsRaw cs) : IsRaw ('\\' :: c :: cs)

/-- An attribute as it is written: `name : 'value'`. -/
structure Written where
  name : List Char
  beforeColon : List Char
  afterColon : List Char
  /-- The value with its backslashes. -/
  value : List Char
  name_ne_nil : name ≠ []
  isWord_name : ∀ c ∈ name, isWord c = true
  isBlank_beforeColon : isBlank beforeColon = true
  isBlank_afterColon : isBlank afterColon = true
  isRaw_value : IsRaw value

/-- The text of an attribute. -/
def Written.text (w : Written) : List Char :=
  w.name ++ (w.beforeColon ++ ':' :: (w.afterColon ++ '\x27' :: (w.value ++ ['\x27'])))

/-- The name of an attribute, and its value without the backslashes that hide a character. -/
def Written.item (w : Written) : String × String :=
  (String.ofList w.name, String.ofList (unescapeText w.value))

/-- The value of an opened quote as it is written, and the text after its closing quote. -/
def splitQuoted : List Char → Option (List Char × List Char)
  | [] => none
  | ['\\'] => none
  | '\\' :: c :: cs => (splitQuoted cs).map (prepend ['\\', c])
  | c :: cs => if c = '\x27' then some ([], cs) else (splitQuoted cs).map (prepend [c])

section

variable {cs rest value : List Char}

theorem splitQuoted_plain {c : Char} (hq : c ≠ '\x27') (hb : c ≠ '\\') (cs : List Char) :
    splitQuoted (c :: cs) = (splitQuoted cs).map (prepend [c]) := by
  rw [splitQuoted]
  · exact if_neg hq
  · exact fun he _ => hb he
  · exact fun _ _ he _ => hb he

theorem unescapeText_plain {c : Char} (hb : c ≠ '\\') (cs : List Char) :
    unescapeText (c :: cs) = c :: unescapeText cs := by
  rw [unescapeText]
  exact fun _ _ he _ => hb he

theorem readQuoted_eq (cs : List Char) :
    readQuoted cs = (splitQuoted cs).map fun p => (unescapeText p.1, p.2) := by
  fun_induction readQuoted cs with
  | case1 => rfl
  | case2 => rfl
  | case3 c cs ih =>
    rw [splitQuoted, ih, Option.map_map, Option.map_map]
    rfl
  | case4 cs => rfl
  | case5 c cs h₁ h₂ hq ih =>
    have hb : c ≠ '\\' := ne_of_not_escape h₁ h₂
    rw [splitQuoted_plain hq hb, ih, Option.map_map, Option.map_map]
    refine congrArg (Option.map · _) (funext fun p => ?_)
    simp [prepend, unescapeText_plain hb]

theorem splitQuoted_eq_some_iff :
    splitQuoted cs = some (value, rest) ↔ IsRaw value ∧ cs = value ++ '\x27' :: rest := by
  constructor
  · intro h
    fun_induction splitQuoted cs generalizing value with
    | case1 => cases h
    | case2 => cases h
    | case3 c cs ih =>
      obtain ⟨p, hp, he⟩ := Option.map_eq_some_iff.1 h
      cases he
      obtain ⟨hraw, rfl⟩ := ih hp
      exact ⟨.escaped c hraw, rfl⟩
    | case4 cs =>
      cases h
      exact ⟨.nil, rfl⟩
    | case5 c cs h₁ h₂ hq ih =>
      have hb : c ≠ '\\' := ne_of_not_escape h₁ h₂
      obtain ⟨p, hp, he⟩ := Option.map_eq_some_iff.1 h
      cases he
      obtain ⟨hraw, rfl⟩ := ih hp
      exact ⟨.plain hq hb hraw, rfl⟩
  · rintro ⟨hraw, rfl⟩
    induction hraw with
    | nil => simp [splitQuoted]
    | plain hq hb _ ih => simp [splitQuoted_plain hq hb, ih, prepend]
    | escaped c _ ih => simp [splitQuoted, ih, prepend]

/-! ## Reading an attribute -/

theorem readAttribute_eq (cs : List Char) :
    readAttribute cs =
      if cs.takeWhile isWord = [] then none
      else (readValue (cs.dropWhile isWord)).map fun p =>
        ((String.ofList (cs.takeWhile isWord), String.ofList p.1), p.2) := by
  rw [readAttribute]
  split <;> simp_all

/-- A word ends where a character follows that belongs to no word. -/
theorem takeWhile_word {word tail : List Char} (hword : ∀ c ∈ word, isWord c = true)
    (htail : ∀ c ∈ tail.head?, isWord c = false) :
    (word ++ tail).takeWhile isWord = word ∧ (word ++ tail).dropWhile isWord = tail := by
  rw [List.takeWhile_append_of_pos hword, List.dropWhile_append_of_pos hword]
  cases tail with
  | nil => exact ⟨List.append_nil word, rfl⟩
  | cons c tail =>
    have hc : ¬ isWord c = true := by simp [htail c rfl]
    rw [List.takeWhile_cons_of_neg hc, List.dropWhile_cons_of_neg hc, List.append_nil]
    exact ⟨rfl, rfl⟩

theorem not_isWord_of_isWhiteSpace {c : Char} (h : isWhiteSpace c = true) : isWord c = false :=
  Bool.eq_false_iff.2 fun hw => Bool.false_ne_true ((isWhiteSpace_eq_false hw).symm.trans h)

/-- An attribute that stands at the beginning of a text is read as it is written. -/
theorem readAttribute_text (w : Written) (rest : List Char) :
    readAttribute (w.text ++ rest) = some (w.item, rest) := by
  obtain ⟨name, before, after, value, hne, hname, hbefore, hafter, hraw⟩ := w
  have hquote : isWhiteSpace '\x27' = false := by decide
  have hcolon : isWhiteSpace ':' = false := by decide
  have hvalue : readValue (before ++ ':' :: (after ++ '\x27' :: (value ++ '\x27' :: rest))) =
      some (unescapeText value, rest) := by
    rw [readValue, trimStart_append hbefore, trimStart_cons_of_not hcolon]
    simp only [trimStart_append hafter, trimStart_cons_of_not hquote, if_true]
    rw [readQuoted_eq, splitQuoted_eq_some_iff.2 ⟨hraw, rfl⟩]
    rfl
  have hstop : ∀ c ∈ (before ++ ':' :: (after ++ '\x27' :: (value ++ '\x27' :: rest))).head?,
      isWord c = false := by
    intro c hc
    cases before with
    | nil =>
      cases hc
      decide
    | cons d before =>
      cases hc
      exact not_isWord_of_isWhiteSpace (isBlank_iff.1 hbefore _ List.mem_cons_self)
  obtain ⟨htake, hdrop⟩ := takeWhile_word hname hstop
  rw [readAttribute_eq]
  simp only [Written.text, List.append_assoc, List.cons_append, List.nil_append, htake, hdrop,
    hvalue, if_neg hne, Option.map_some, Written.item]

/-- What is read as an attribute is written as one. -/
theorem exists_text_of_readAttribute {item : String × String}
    (h : readAttribute cs = some (item, rest)) :
    ∃ w : Written, cs = w.text ++ rest ∧ item = w.item := by
  rw [readAttribute_eq] at h
  split at h
  · cases h
  · rename_i hne
    obtain ⟨p, hp, he⟩ := Option.map_eq_some_iff.1 h
    cases he
    unfold readValue at hp
    split at hp
    · rename_i tail hcolon
      split at hp
      · rename_i c quoted hquote
        split at hp
        · rename_i hc
          subst hc
          rw [readQuoted_eq] at hp
          obtain ⟨q, hq, he⟩ := Option.map_eq_some_iff.1 hp
          obtain ⟨hraw, hquoted⟩ := splitQuoted_eq_some_iff.1 hq
          cases he
          refine ⟨⟨cs.takeWhile isWord, blanks (cs.dropWhile isWord), blanks tail, q.1, hne,
            fun c hc => List.mem_takeWhile_imp hc, isBlank_blanks _, isBlank_blanks _, hraw⟩, ?_,
            rfl⟩
          have hname := List.takeWhile_append_dropWhile (p := isWord) (l := cs)
          have hbefore := blanks_append_trimStart (cs.dropWhile isWord)
          have hafter := blanks_append_trimStart tail
          rw [hcolon] at hbefore
          rw [hquote, hquoted] at hafter
          conv => lhs; rw [← hname, ← hbefore, ← hafter]
          simp [Written.text]
        · cases hp
      · cases hp
    · cases hp

theorem choose_valuePart_plain {α : Type} {k : List Char → List Char → Option α} {c : Char}
    (hb : c ≠ '\\') :
    choose valuePart k (c :: cs) = if c = '\x27' then none else k [c] cs := by
  rw [valuePart, choose_alt, choose_seq, Pattern.char, choose_one_cons, choose_one_cons]
  by_cases hq : c = '\x27' <;> simp [hq, hb]

theorem choose_valuePart_escaped {α : Type} {k : List Char → List Char → Option α} (c : Char) :
    choose valuePart k ('\\' :: c :: cs) = k ['\\', c] cs := by
  rw [valuePart, choose_alt, choose_seq, Pattern.char, choose_one_cons, choose_one_cons]
  simp [choose_one_cons]

theorem first_quote_cons (x cs : List Char) (c : Char) :
    ((first [.char '\x27'] (c :: cs)).map fun m => (⟨(x ++ []) :: m.pieces, m.rest⟩ : Match)) =
      if c = '\x27' then some ⟨[x, ['\x27']], cs⟩ else none := by
  rw [first_char_cons]
  split
  · rename_i hc
    simp [hc, first_nil]
  · rfl

/-- The parts of a value that has taken `x` before it comes to `cs`. -/
theorem choose_valueParts (x cs : List Char) :
    choose (.many true valuePart)
        (fun y ds => (first [.char '\x27'] ds).map fun m => ⟨(x ++ y) :: m.pieces, m.rest⟩) cs =
      (splitQuoted cs).map fun p => (⟨[x ++ p.1, ['\x27']], p.2⟩ : Match) := by
  fun_induction splitQuoted cs generalizing x with
  | case1 =>
    rw [choose_many]
    rfl
  | case2 =>
    rw [choose_many]
    rfl
  | case3 c cs ih =>
    have hmore := ih (x ++ ['\\', c])
    simp only [List.append_assoc] at hmore
    have hlength : cs.length < ('\\' :: c :: cs).length :=
      Nat.lt_add_right 1 (Nat.lt_succ_self _)
    rw [choose_many]
    simp only [if_true, choose_valuePart_escaped, if_pos hlength, first_quote_cons, hmore,
      Option.map_map]
    simp [prepend, Function.comp_def]
  | case4 cs =>
    rw [choose_many]
    simp only [if_true, choose_valuePart_plain (show '\x27' ≠ '\\' by decide), first_quote_cons]
    simp
  | case5 c cs h₁ h₂ hq ih =>
    have hmore := ih (x ++ [c])
    simp only [List.append_assoc] at hmore
    have hlength : cs.length < (c :: cs).length := by simp
    rw [choose_many]
    simp only [if_true, choose_valuePart_plain (ne_of_not_escape h₁ h₂), if_neg hq,
      if_pos hlength, first_quote_cons, hmore, Option.map_map, Option.or_none]
    simp [prepend, Function.comp_def]

/-- Every way through a value is forced: a quote ends it, and a backslash takes the character
behind it along. -/
theorem first_quoted (cs : List Char) :
    first [.many true valuePart, .char '\x27'] cs =
      (splitQuoted cs).map fun p => ⟨[p.1, ['\x27']], p.2⟩ := by
  rw [first_cons]
  exact choose_valueParts [] cs

/-- White space is passed over before a character that is none. -/
theorem first_blankRun {c : Char} {ps : List Pattern} (hc : isWhiteSpace c = false)
    (cs : List Char) :
    first (blankRun :: .char c :: ps) cs =
      (first (.char c :: ps) (trimStart cs)).map fun m => ⟨blanks cs :: m.pieces, m.rest⟩ := by
  rw [first_cons, blankRun, choose_run_of_stop]
  · rfl
  · intro x d ds hd
    have hne : d ≠ c := fun he => by simp [he, hc] at hd
    rw [first_char_cons, if_neg hne, Option.map_none]

theorem first_value (cs : List Char) :
    (first (pattern.drop 1) cs).map (fun m => (unescapeText (m.pieces.getD 4 []), m.rest)) =
      readValue cs := by
  show (first (blankRun :: .char ':' :: pattern.drop 3) cs).map _ = _
  rw [first_blankRun (by decide)]
  unfold readValue
  split
  · rename_i ds hcolon
    rw [hcolon, first_char_cons, if_pos rfl]
    show ((Option.map _ (first (blankRun :: .char '\x27' :: pattern.drop 5) ds)).map _).map _ = _
    rw [first_blankRun (by decide)]
    cases trimStart ds with
    | nil => rfl
    | cons d quoted =>
      dsimp only
      rw [first_char_cons]
      split
      · rw [show pattern.drop 5 = [.many true valuePart, .char '\x27'] from rfl, first_quoted,
          readQuoted_eq]
        simp only [Option.map_map]
        rfl
      · rfl
  · rename_i hne
    cases hc : trimStart cs with
    | nil => rfl
    | cons c ds =>
      rw [first_char_cons, if_neg]
      · rfl
      · rintro rfl
        exact hne ds hc

/-- Of all ways in which the pattern matches it prefers the attribute that is read. -/
theorem first_pattern (cs : List Char) :
    (first pattern cs).map (fun m => (item m.pieces, m.rest)) = readAttribute cs := by
  have hstop (c : Char) (ds : List Char) (hc : isWord c = true) :
      first (pattern.drop 1) (c :: ds) = none := by
    have hne : c ≠ ':' := fun he => absurd (he ▸ hc) (by decide)
    show first (blankRun :: .char ':' :: pattern.drop 3) (c :: ds) = none
    rw [first_blankRun (by decide), trimStart_cons_of_not (isWhiteSpace_eq_false hc),
      first_char_cons, if_neg hne, Option.map_none]
  show (first (.plus (.one isWord) :: pattern.drop 1) cs).map _ = _
  rw [first_cons, plus, choose_seq, readAttribute_eq]
  cases cs with
  | nil => rfl
  | cons c cs =>
    rw [choose_one_cons]
    by_cases hc : isWord c = true
    · rw [if_pos hc, choose_run_of_stop fun x d ds hd => by rw [hstop d ds hd, Option.map_none],
        List.takeWhile_cons_of_pos hc, List.dropWhile_cons_of_pos hc, if_neg (List.cons_ne_nil _ _),
        ← first_value, Option.map_map, Option.map_map]
      rfl
    · rw [if_neg hc, List.takeWhile_cons_of_neg hc, if_pos rfl]
      rfl

/-! ## Texts between attributes -/

/-- What separates two neighbours: white space, a comma, or a comma with white space around it. -/
def Separates (gap : List Char) : Prop :=
  gap ≠ [] ∧ (isBlank gap = true ∨
    ∃ before after, isBlank before = true ∧ isBlank after = true ∧ gap = before ++ ',' :: after)

/-- What separates two neighbours, or nothing. -/
def Adjoins (gap : List Char) : Prop := gap = [] ∨ Separates gap

theorem trim_eq_comma_iff {gap : List Char} :
    trim gap = [','] ↔
      ∃ before after, isBlank before = true ∧ isBlank after = true ∧
        gap = before ++ ',' :: after := by
  constructor
  · intro h
    refine ⟨blanks gap, trailingBlanks (trimStart gap), isBlank_blanks gap,
      isBlank_trailingBlanks _, ?_⟩
    conv => lhs; rw [← eq_blanks_trim gap, h]
    rfl
  · rintro ⟨before, after, hbefore, hafter, rfl⟩
    have hcomma : isWhiteSpace ',' = false := by decide
    rw [trim, trimStart_append hbefore, trimStart_cons_of_not hcomma,
      trimEnd_cons (by simp [isBlank, hcomma]), trimEnd_eq_nil_iff.2 hafter]

theorem isGap_true {gap : List Char} : isGap true gap = true ↔ isBlank gap = true := by
  rw [isGap, ← trim_eq_nil_iff]
  simp

theorem isGap_false {gap : List Char} : isGap false gap = true ↔ Adjoins gap := by
  rw [isGap, Adjoins, Separates]
  simp only [Bool.false_eq_true, if_false, Bool.or_eq_true, List.isEmpty_iff, trim_eq_nil_iff,
    decide_eq_true_eq, trim_eq_comma_iff]
  by_cases hgap : gap = []
  · simp [hgap, isBlank]
  · simp [hgap]

/-- What is left behind the text before an attribute; a comma may stand there only if the attribute
is not the first one. -/
def skipGap (leading : Bool) (cs : List Char) : List Char :=
  let skipped := trimStart cs
  if !leading && skipped.head? = some ',' then trimStart skipped.tail else skipped

theorem exists_gap (leading : Bool) (cs : List Char) :
    ∃ gap, isGap leading gap = true ∧ cs = gap ++ skipGap leading cs := by
  have hcs := blanks_append_trimStart cs
  have hblanks := isBlank_blanks cs
  unfold skipGap
  dsimp only
  split
  · rename_i hcomma
    simp only [Bool.and_eq_true, Bool.not_eq_true', decide_eq_true_eq] at hcomma
    obtain ⟨hleading, hhead⟩ := hcomma
    obtain ⟨tail, htail⟩ := List.head?_eq_some_iff.1 hhead
    have htail' := blanks_append_trimStart tail
    refine ⟨blanks cs ++ ',' :: blanks tail, ?_, ?_⟩
    · rw [hleading, isGap_false]
      exact .inr ⟨by simp, .inr ⟨_, _, hblanks, isBlank_blanks tail, rfl⟩⟩
    · rw [htail, List.tail_cons, List.append_assoc, List.cons_append, htail', ← htail, hcs]
  · refine ⟨blanks cs, ?_, hcs.symm⟩
    cases leading with
    | true => exact isGap_true.2 hblanks
    | false =>
      by_cases hnil : blanks cs = []
      · exact isGap_false.2 (.inl hnil)
      · exact isGap_false.2 (.inr ⟨hnil, .inl hblanks⟩)

theorem skipGap_append {leading : Bool} {gap : List Char} {c : Char}
    (hgap : isGap leading gap = true) (hc : isWord c = true) (cs : List Char) :
    skipGap leading (gap ++ c :: cs) = c :: cs := by
  have hstart : trimStart (c :: cs) = c :: cs := trimStart_cons_of_not (isWhiteSpace_eq_false hc)
  have hcomma : c ≠ ',' := fun he => absurd (he ▸ hc) (by decide)
  have hblank (h : isBlank gap = true) : skipGap leading (gap ++ c :: cs) = c :: cs := by
    simp [skipGap, trimStart_append h, hstart, hcomma]
  cases leading with
  | true => exact hblank (isGap_true.1 hgap)
  | false =>
    rcases isGap_false.1 hgap with rfl | ⟨-, h | ⟨before, after, hbefore, hafter, rfl⟩⟩
    · exact hblank rfl
    · exact hblank h
    · have hskipped :
          trimStart (before ++ ',' :: (after ++ c :: cs)) = ',' :: (after ++ c :: cs) := by
        rw [trimStart_append hbefore, trimStart_cons_of_not (by decide)]
      simp [skipGap, hskipped, trimStart_append hafter, hstart]

theorem readMore_eq (cs : List Char) :
    readMore cs =
      if isBlank cs then some []
      else (readAttribute (skipGap false cs)).bind fun p => (readMore p.2).map (p.1 :: ·) := by
  have hblank : (trimStart cs).isEmpty = isBlank cs :=
    Bool.eq_iff_iff.2 (List.isEmpty_iff.trans trimStart_eq_nil_iff)
  rw [readMore]
  simp only [hblank]
  split
  · rfl
  · split
    · rename_i hn
      simp [skipGap, hn]
    · rename_i a rest hs
      simp [skipGap, hs]

theorem readList_eq (cs : List Char) :
    readList cs =
      if isBlank cs then some []
      else (readAttribute (skipGap true cs)).bind fun p => (readMore p.2).map (p.1 :: ·) := by
  have hblank : (trimStart cs).isEmpty = isBlank cs :=
    Bool.eq_iff_iff.2 (List.isEmpty_iff.trans trimStart_eq_nil_iff)
  have hskip : skipGap true cs = trimStart cs := by simp [skipGap]
  rw [readList]
  simp only [hblank, hskip]
  cases readAttribute (trimStart cs) <;> rfl

/-- An attribute that is read behind a gap is written there. -/
theorem exists_text_behind_gap {leading : Bool} {item : String × String}
    (h : readAttribute (skipGap leading cs) = some (item, rest)) :
    ∃ gap, ∃ w : Written, isGap leading gap = true ∧ cs = gap ++ (w.text ++ rest) ∧
      item = w.item := by
  obtain ⟨gap, hgap, hcs⟩ := exists_gap leading cs
  obtain ⟨w, hw, hitem⟩ := exists_text_of_readAttribute h
  exact ⟨gap, w, hgap, by rw [hcs, hw], hitem⟩

theorem Written.exists_cons (w : Written) : ∃ c cs, w.text = c :: cs ∧ isWord c = true := by
  obtain ⟨c, name, hname⟩ := List.exists_cons_of_ne_nil w.name_ne_nil
  refine ⟨c, _, by rw [Written.text, hname, List.cons_append], ?_⟩
  exact w.isWord_name c (hname ▸ List.mem_cons_self)

/-- A text that holds an attribute is not blank. -/
theorem Written.isBlank_eq_false (w : Written) (gap rest : List Char) :
    isBlank (gap ++ (w.text ++ rest)) = false := by
  obtain ⟨c, cs, hc, hword⟩ := w.exists_cons
  simp [isBlank, hc, isWhiteSpace_eq_false hword]

/-- An attribute that is written behind a gap is read there. -/
theorem readAttribute_behind_gap {leading : Bool} {gap : List Char}
    (hgap : isGap leading gap = true) (w : Written) (rest : List Char) :
    readAttribute (skipGap leading (gap ++ (w.text ++ rest))) = some (w.item, rest) := by
  obtain ⟨c, cs, hc, hword⟩ := w.exists_cons
  rw [hc, List.cons_append, skipGap_append hgap hword, ← List.cons_append, ← hc,
    readAttribute_text]

/-! ## Lists of attributes -/

/-- Attributes, each behind what may stand between it and the one before, and white space at the
end. -/
inductive Continued (Between : List Char → Prop) : List Char → List (String × String) → Prop
  | done {rest : List Char} (h : isBlank rest = true) : Continued Between rest []
  | next {gap rest : List Char} {items : List (String × String)} (w : Written)
    (hgap : Between gap) (h : Continued Between rest items) :
    Continued Between (gap ++ (w.text ++ rest)) (w.item :: items)

/-- A list of attributes with white space around it. -/
inductive Listed (Between : List Char → Prop) : List Char → List (String × String) → Prop
  | empty {cs : List Char} (h : isBlank cs = true) : Listed Between cs []
  | items {lead rest : List Char} {items : List (String × String)} (w : Written)
    (hlead : isBlank lead = true) (h : Continued Between rest items) :
    Listed Between (lead ++ (w.text ++ rest)) (w.item :: items)

variable {items : List (String × String)}

theorem Continued.mono {P Q : List Char → Prop} (hPQ : ∀ gap, P gap → Q gap)
    (h : Continued P cs items) : Continued Q cs items := by
  induction h with
  | done h => exact .done h
  | next w hgap _ ih => exact .next w (hPQ _ hgap) ih

theorem Listed.mono {P Q : List Char → Prop} (hPQ : ∀ gap, P gap → Q gap)
    (h : Listed P cs items) : Listed Q cs items := by
  cases h with
  | empty h => exact .empty h
  | items w hlead h => exact .items w hlead (h.mono hPQ)

theorem readMore_eq_some_iff : readMore cs = some items ↔ Continued Adjoins cs items := by
  constructor
  · intro h
    induction hn : cs.length using Nat.strong_induction_on generalizing cs items with
    | _ n ih =>
      rw [readMore_eq] at h
      split at h
      · rename_i hblank
        cases h
        exact .done hblank
      · obtain ⟨⟨item, rest⟩, hread, h⟩ := Option.bind_eq_some_iff.1 h
        obtain ⟨more, hmore, rfl⟩ := Option.map_eq_some_iff.1 h
        obtain ⟨gap, w, hgap, rfl, rfl⟩ := exists_text_behind_gap hread
        refine .next w (isGap_false.1 hgap) (ih _ ?_ hmore rfl)
        obtain ⟨c, cs, hc, -⟩ := w.exists_cons
        simp only [← hn, hc, List.length_append, List.length_cons]
        omega
  · intro h
    induction h with
    | done h => rw [readMore_eq, if_pos h]
    | next w hgap _ ih =>
      rw [readMore_eq, w.isBlank_eq_false, if_neg Bool.false_ne_true,
        readAttribute_behind_gap (isGap_false.2 hgap), Option.bind_some, ih]
      rfl

/-- The reader of lists accepts a text exactly if it is a list of attributes, and returns them. -/
theorem readList_eq_some_iff : readList cs = some items ↔ Listed Adjoins cs items := by
  constructor
  · intro h
    rw [readList_eq] at h
    split at h
    · rename_i hblank
      cases h
      exact .empty hblank
    · obtain ⟨⟨item, rest⟩, hread, h⟩ := Option.bind_eq_some_iff.1 h
      obtain ⟨more, hmore, rfl⟩ := Option.map_eq_some_iff.1 h
      obtain ⟨gap, w, hgap, rfl, rfl⟩ := exists_text_behind_gap hread
      exact .items w (isGap_true.1 hgap) (readMore_eq_some_iff.1 hmore)
  · intro h
    cases h with
    | empty h => rw [readList_eq, if_pos h]
    | items w hlead h =>
      rw [readList_eq, w.isBlank_eq_false, if_neg Bool.false_ne_true,
        readAttribute_behind_gap (isGap_true.2 hlead), Option.bind_some,
        readMore_eq_some_iff.2 h]
      rfl

/-! ## The search by the pattern -/

/-- Where no attribute begins nothing is found. -/
theorem first_pattern_eq_none {c : Char} (hc : isWord c = false) (cs : List Char) :
    first pattern (c :: cs) = none := by
  have h := first_pattern (c :: cs)
  rwa [readAttribute_eq, List.takeWhile_cons_of_neg (by simp [hc]), if_pos rfl,
    Option.map_eq_none_iff] at h

/-- What is found is written as an attribute. -/
theorem exists_text_of_search {before : List Char} {m : Match}
    (h : Pattern.search pattern cs = some (before, m)) :
    ∃ w : Written, cs = before ++ (w.text ++ m.rest) ∧ item m.pieces = w.item := by
  obtain ⟨y, hcs, hy, -⟩ := firstPlace_eq_some_iff.1 h
  have hread : readAttribute y = some (item m.pieces, m.rest) := by
    rw [← first_pattern, hy, Option.map_some]
  obtain ⟨w, hw, hitem⟩ := exists_text_of_readAttribute hread
  exact ⟨w, by rw [hcs, hw], hitem⟩

/-- An attribute is found behind a text in which none begins. -/
theorem search_append {gap : List Char} (hgap : ∀ c ∈ gap, isWord c = false) (w : Written)
    (rest : List Char) :
    ∃ m, Pattern.search pattern (gap ++ (w.text ++ rest)) = some (gap, m) := by
  obtain ⟨m, hm, -⟩ := Option.map_eq_some_iff.1
    ((first_pattern (w.text ++ rest)).trans (readAttribute_text w rest))
  refine ⟨m, firstPlace_eq_some_iff.2 ⟨_, rfl, hm, fun x z hxz hlength => ?_⟩⟩
  rcases List.append_eq_append_iff.1 hxz with ⟨a, rfl, rfl⟩ | ⟨a, rfl, -⟩
  · cases a with
    | nil => simp at hlength
    | cons c a =>
      have hc : c ∈ x ++ c :: a := List.mem_append_right x List.mem_cons_self
      exact first_pattern_eq_none (hgap c hc) _
  · rw [List.length_append] at hlength
    omega

theorem not_isWord_of_isGap {leading : Bool} {gap : List Char} (h : isGap leading gap = true) :
    ∀ c ∈ gap, isWord c = false := by
  have hblank {x : List Char} (hx : isBlank x = true) : ∀ c ∈ x, isWord c = false :=
    fun c hc => not_isWord_of_isWhiteSpace (isBlank_iff.1 hx c hc)
  cases leading with
  | true => exact hblank (isGap_true.1 h)
  | false =>
    rcases isGap_false.1 h with rfl | ⟨-, h | ⟨before, after, hbefore, hafter, rfl⟩⟩
    · exact fun c hc => absurd hc List.not_mem_nil
    · exact hblank h
    · intro c hc
      rcases List.mem_append.1 hc with hc | hc
      · exact hblank hbefore c hc
      · rcases List.mem_cons.1 hc with rfl | hc
        · decide
        · exact hblank hafter c hc

theorem length_rest_of_search {before : List Char} {m : Match}
    (h : Pattern.search pattern cs = some (before, m)) : m.rest.length < cs.length := by
  obtain ⟨w, rfl, -⟩ := exists_text_of_search h
  obtain ⟨c, x, hc, -⟩ := w.exists_cons
  simp only [hc, List.length_append, List.length_cons]
  omega

/-- An attribute that is read behind a gap is the first one that the search finds. -/
theorem search_of_readAttribute {leading : Bool} {item : String × String}
    (h : readAttribute (skipGap leading cs) = some (item, rest)) :
    ∃ gap m, isGap leading gap = true ∧ Pattern.search pattern cs = some (gap, m) := by
  obtain ⟨gap, w, hgap, rfl, -⟩ := exists_text_behind_gap h
  obtain ⟨m, hm⟩ := search_append (not_isWord_of_isGap hgap) w rest
  exact ⟨gap, m, hgap, hm⟩

theorem collect_searchAll_eq (leading : Bool) (cs : List Char) :
    collect leading (searchAll pattern cs) =
      match Pattern.search pattern cs with
      | none => if isBlank cs then some [] else none
      | some (before, m) =>
        if isGap leading before then
          (collect false (searchAll pattern m.rest)).map (item m.pieces :: ·)
        else none := by
  cases hsearch : Pattern.search pattern cs with
  | none =>
    rw [searchAll_of_none hsearch, collect]
    simp only [List.isEmpty_iff, trim_eq_nil_iff]
  | some p =>
    rw [searchAll_of_some hsearch (length_rest_of_search hsearch), collect]

/-- The attributes that the search collects are those that the reader of lists reads. -/
theorem collect_eq (leading : Bool) (cs : List Char) :
    collect leading (searchAll pattern cs) =
      if isBlank cs then some []
      else (readAttribute (skipGap leading cs)).bind fun p => (readMore p.2).map (p.1 :: ·) := by
  induction hn : cs.length using Nat.strong_induction_on generalizing leading cs with
  | _ n ih =>
    rw [collect_searchAll_eq]
    cases hsearch : Pattern.search pattern cs with
    | none =>
      cases hread : readAttribute (skipGap leading cs) with
      | none => rfl
      | some p =>
        obtain ⟨gap, m, -, hm⟩ := search_of_readAttribute hread
        exact nomatch hsearch.symm.trans hm
    | some p =>
      obtain ⟨before, m⟩ := p
      obtain ⟨w, hcs, hitem⟩ := exists_text_of_search hsearch
      dsimp only
      split
      · rename_i hgap
        have hlength : m.rest.length < n := hn ▸ length_rest_of_search hsearch
        rw [ih _ hlength false m.rest rfl, ← readMore_eq, hcs, w.isBlank_eq_false,
          if_neg Bool.false_ne_true, readAttribute_behind_gap hgap, hitem, Option.bind_some]
      · rename_i hgap
        rw [hcs, w.isBlank_eq_false, if_neg Bool.false_ne_true, ← hcs]
        cases hread : readAttribute (skipGap leading cs) with
        | none => rfl
        | some p =>
          obtain ⟨gap, m', hgap', hm'⟩ := search_of_readAttribute hread
          cases hsearch.symm.trans hm'
          exact absurd hgap' hgap

/-- The search by the pattern finds the attributes that the reader of lists reads. -/
theorem search_eq_parse (cs : List Char) : search cs = parse cs := by
  have hcollect : collect true (searchAll pattern cs) = readList cs :=
    (collect_eq true cs).trans (readList_eq cs).symm
  cases hread : readList cs <;> simp only [Attributes.search, parse, hcollect, hread]

/-- A text that is a list of attributes has the attributes that are written in it, of each name the
last one, and any other text has none. Two neighbours may be separated by white space or a comma, as
they should, or by nothing. -/
theorem parse_listed (cs : List Char) :
    search cs = parse cs ∧
      (∀ items, Listed Adjoins cs items →
        parse cs = Fields.ofList items ∧
          ∀ name, Fields.get? name (parse cs) = Fields.get? name items.reverse) ∧
      ((¬ ∃ items, Listed Adjoins cs items) → parse cs = []) ∧
      ∀ items, Listed Separates cs items → Listed Adjoins cs items := by
  refine ⟨search_eq_parse cs, fun items h => ?_, fun h => ?_, fun items h => ?_⟩
  · have hparse : parse cs = Fields.ofList items := by rw [parse, readList_eq_some_iff.2 h]
    exact ⟨hparse, fun name => by rw [hparse, Fields.get?_ofList]⟩
  · have hnone : readList cs = none :=
      Option.eq_none_iff_forall_ne_some.2 fun items hread => h ⟨items, readList_eq_some_iff.1 hread⟩
    rw [parse, hnone]
  · exact h.mono fun _ => .inr

end

/-- An attribute of one letter with a value of one digit. -/
def Written.small (name value : Char) (hname : isWord name = true) (hq : value ≠ '\x27')
    (hb : value ≠ '\\') : Written :=
  ⟨[name], [], [], [value], List.cons_ne_nil _ _, List.forall_mem_singleton.2 hname, rfl, rfl,
    .plain hq hb .nil⟩

/-- Two attributes of one name, with a comma between them. -/
theorem parse_repeated :
    Listed Separates "a:'1', a:'2'".toList [("a", "1"), ("a", "2")] ∧
      search "a:'1', a:'2'".toList = [("a", "2")] := by
  have hlisted : Listed Separates "a:'1', a:'2'".toList [("a", "1"), ("a", "2")] := by
    have hnone : isBlank [] = true := rfl
    have hcomma : Separates [',', ' '] := ⟨by decide, .inr ⟨[], [' '], rfl, by decide, rfl⟩⟩
    have hmore : Continued Separates ", a:'2'".toList [("a", "2")] :=
      .next (.small 'a' '2' (by decide) (by decide) (by decide)) hcomma (.done hnone)
    exact .items (.small 'a' '1' (by decide) (by decide) (by decide)) hnone hmore
  obtain ⟨hsearch, hparse, -, hadjoins⟩ := parse_listed "a:'1', a:'2'".toList
  exact ⟨hlisted, hsearch.trans ((hparse _ (hadjoins _ hlisted)).1.trans (by decide))⟩

/-- Two attributes with nothing between them. -/
def touching : List Char := "a:'1'b:'2'".toList

/-- Neighbours that touch are no list of separated attributes, but they are accepted. -/
theorem parse_touching :
    (¬ ∃ items, Listed Separates touching items) ∧
      search touching = [("a", "1"), ("b", "2")] := by
  let a : Written := .small 'a' '1' (by decide) (by decide) (by decide)
  let b : Written := .small 'b' '2' (by decide) (by decide) (by decide)
  have hfirst : readAttribute (skipGap true touching) = some (a.item, b.text) :=
    readAttribute_behind_gap (show isGap true [] = true from rfl) a b.text
  constructor
  · rintro ⟨items, h⟩
    generalize hcs : touching = cs at h
    cases h with
    | empty h =>
      rw [← hcs] at h
      exact absurd h (by decide)
    | @items lead rest items w hlead h =>
      have hrest : rest = b.text := by
        have hread := readAttribute_behind_gap (isGap_true.2 hlead) w rest
        rw [← hcs, hfirst] at hread
        exact (congrArg Prod.snd (Option.some.inj hread)).symm
      rw [hrest] at h
      generalize hb : b.text = cs at h
      cases h with
      | done h =>
        rw [← hb] at h
        exact absurd h (by decide)
      | next w hgap =>
        -- the text before the second attribute would begin with its name
        obtain ⟨c, gap, rfl⟩ := List.exists_cons_of_ne_nil hgap.1
        have hc : c = 'b' := (List.cons.inj hb).1.symm
        have hword := not_isWord_of_isGap (isGap_false.2 (.inr hgap)) c List.mem_cons_self
        exact absurd (hc ▸ hword) (by decide)
  · have hnone : isBlank [] = true := rfl
    have hadjoins : Adjoins [] := .inl rfl
    have hmore : Continued Adjoins b.text [b.item] := .next b hadjoins (.done hnone)
    have hlisted : Listed Adjoins touching [a.item, b.item] := .items a hnone hmore
    rw [search_eq_parse, parse, readList_eq_some_iff.2 hlisted]
    decide

end Stencil.Markup.Attributes
