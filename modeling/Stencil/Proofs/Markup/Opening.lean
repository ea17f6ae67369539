import Stencil.Proofs.Fields
import Stencil.Proofs.Markup.Printer

/-!
# Printed opening tags

Attributes joined by any separators (`printJoined`) are read back as they were written
(`Attributes.readList_printJoined`), and `splitOpening` finds the `>` of a tag behind them
(`splitOpening_printJoined`): the two readers agree on where a quoted value ends. What `printItems`
writes is the case of commas (`printItems_cons`), so it is read back as the same attributes
(`Attributes.parse_printItems`).
-/

namespace Stencil.Markup

open Stencil.Text

/-- The text `x` put before the first part of a cut. -/
def prepend {α : Type} (x : List Char) (p : List Char × α) : List Char × α := (x ++ p.1, p.2)

@[simp] theorem prepend_nil {α : Type} (p : List Char × α) : prepend [] p = p := rfl

@[simp] theorem prepend_prepend {α : Type} (x y : List Char) (p : List Char × α) :
    prepend x (prepend y p) = prepend (x ++ y) p := by
  simp [prepend]

@[simp] theorem map_prepend_nil {α : Type} (o : Option (List Char × α)) :
    o.map (prepend []) = o := by
  cases o <;> rfl

@[simp] theorem prepend_comp_prepend {α : Type} (x y : List Char) :
    prepend (α := α) x ∘ prepend y = prepend (x ++ y) :=
  funext (prepend_prepend x y)

/-- An attribute name: a word. -/
def IsName (name : String) : Prop := name ≠ "" ∧ ∀ c ∈ name.toList, isWord c = true

instance : DecidablePred IsName := fun name =>
  decidable_of_iff (name ≠ "" ∧ name.toList.all isWord = true)
    (and_congr_right fun _ => List.all_eq_true)

/-- No word character is white space. -/
theorem isWhiteSpace_eq_false {c : Char} (h : isWord c = true) : isWhiteSpace c = false := by
  have happart : ∀ r ∈ whiteSpaceRanges, ∀ r' ∈ alphabeticRanges ++ joiningRanges,
      r.2 < r'.1 ∨ r'.2 < r.1 := by
    decide +kernel
  apply Bool.eq_false_iff.2
  intro hs
  obtain ⟨r, hr, hfirst, hlast⟩ := isWhiteSpace_iff.1 hs
  obtain ⟨r', hr', hfirst', hlast'⟩ := isWord_iff.1 h
  have := happart r hr r' hr'
  omega

/-- What may stand between two attributes: a comma and a space, or white space. -/
def IsSeparator (separator : List Char) : Prop :=
  separator = [',', ' '] ∨ separator ≠ [] ∧ ∀ c ∈ separator, isWhiteSpace c = true

instance : DecidablePred IsSeparator := fun separator =>
  decidable_of_iff
    (separator = [',', ' '] ∨ separator ≠ [] ∧ separator.all isWhiteSpace = true)
    (or_congr_right (and_congr_right fun _ => List.all_eq_true))

/-- Attributes, each behind what separates it from the one before. -/
def printSeparated (items : List (List Char × (String × String))) : List Char :=
  items.flatMap fun item => item.1 ++ printItem item.2

/-- Attributes with their separators between them. Nothing is written before the first one. -/
def printJoined : List (List Char × (String × String)) → List Char
  | [] => []
  | item :: items => printItem item.2 ++ printSeparated items

theorem printSeparated_cons_append (i : List Char × (String × String))
    (items : List (List Char × (String × String))) (rest : List Char) :
    printSeparated (i :: items) ++ rest =
      i.1 ++ (printItem i.2 ++ (printSeparated items ++ rest)) := by
  simp [printSeparated]

/-- A comma and a space stand between attributes as they are printed. -/
theorem printMore_eq (items : List (String × String)) :
    printMore items = printSeparated (items.map ([',', ' '], ·)) := by
  simp [printMore, printSeparated, List.flatMap_map]

theorem printItems_cons (item : String × String) (items : List (String × String)) :
    printItems (item :: items) = ' ' :: printJoined ((item :: items).map ([',', ' '], ·)) := by
  rw [printItems, printMore_eq]
  rfl

theorem isSeparator_of_mem_map {items : List (String × String)} :
    ∀ i ∈ items.map ([',', ' '], ·), IsSeparator i.1 := by
  intro i hi
  obtain ⟨item, -, rfl⟩ := List.mem_map.1 hi
  exact .inl rfl

theorem isName_of_mem_map {items : List (String × String)} (h : ∀ item ∈ items, IsName item.1) :
    ∀ i ∈ items.map ([',', ' '], ·), IsName i.2.1 := by
  intro i hi
  obtain ⟨item, hm, rfl⟩ := List.mem_map.1 hi
  exact h item hm

section

variable {rest separator : List Char} {item : String × String}
  {items : List (List Char × (String × String))}

/-! ## Attributes are read back -/

namespace Attributes

theorem readQuoted_escape (cs : List Char) :
    readQuoted (escape cs ++ '\x27' :: rest) = some (cs, rest) := by
  induction cs with
  | nil => simp [readQuoted]
  | cons c cs ih =>
    rw [escape_cons, escapeChar]
    split
    · rename_i h
      simp [readQuoted, ih, unescape, h]
    · rename_i h
      simp only [Bool.or_eq_true, decide_eq_true_eq, not_or] at h
      simp [readQuoted, ih, h.1, h.2]

theorem readAttribute_printItem {item : String × String} (h : IsName item.1) :
    readAttribute (printItem item ++ rest) = some (item, rest) := by
  obtain ⟨name, value⟩ := item
  obtain ⟨hne, hw⟩ := h
  have hcolon : isWord ':' = false := by decide
  have htake : ∀ cs, (name.toList ++ ':' :: cs).takeWhile isWord = name.toList := fun cs => by
    rw [List.takeWhile_append_of_pos hw, List.takeWhile_cons_of_neg (by simp [hcolon]),
      List.append_nil]
  have hdrop : ∀ cs, (name.toList ++ ':' :: cs).dropWhile isWord = ':' :: cs := fun cs => by
    rw [List.dropWhile_append_of_pos hw, List.dropWhile_cons_of_neg (by simp [hcolon])]
  have hvalue : readValue (':' :: '\x27' :: (escape value.toList ++ '\x27' :: rest)) =
      some (value.toList, rest) := by
    have h₁ : isWhiteSpace ':' = false := by decide
    have h₂ : isWhiteSpace '\x27' = false := by decide
    simp [readValue, trimStart, h₁, h₂, readQuoted_escape]
  rw [readAttribute, printItem]
  simp only [List.append_assoc, List.cons_append, List.nil_append, htake, hdrop, hvalue]
  split
  · rename_i hnil
    exact absurd (String.toList_eq_nil_iff.1 hnil) hne
  · rename_i c cs hc
    rw [← hc, Option.map_some, String.ofList_toList, String.ofList_toList]

theorem trimStart_printItem {item : String × String} (h : IsName item.1) :
    trimStart (printItem item ++ rest) = printItem item ++ rest := by
  obtain ⟨c, cs, hc⟩ := List.exists_cons_of_ne_nil (mt String.toList_eq_nil_iff.1 h.1)
  have hw : isWhiteSpace c = false := isWhiteSpace_eq_false (h.2 c (by simp [hc]))
  simp [printItem, trimStart, hc, hw]

theorem readMore_comma {cs : List Char} {item : String × String}
    (h : readAttribute (trimStart cs) = some (item, rest)) :
    readMore (',' :: cs) = (readMore rest).map (item :: ·) := by
  have hc : isWhiteSpace ',' = false := by decide
  have ht : trimStart (',' :: cs) = ',' :: cs := List.dropWhile_cons_of_neg (by simp [hc])
  rw [readMore]
  simp only [ht, List.isEmpty_cons, Bool.false_eq_true, if_false]
  split
  · rename_i hn
    simp [ht, h] at hn
  · rename_i a rest' hs
    simp only [ht, List.head?_cons, List.tail_cons, if_true, h] at hs
    cases hs
    rfl

/-- An item that follows white space. -/
theorem readMore_blank {cs : List Char} (h : readAttribute (trimStart cs) = some (item, rest)) :
    readMore cs = (readMore rest).map (item :: ·) := by
  have hcomma : (trimStart cs).head? ≠ some ',' := by
    intro hc
    have hnone : (trimStart cs).takeWhile isWord = [] := by
      obtain ⟨ds, hds⟩ := List.head?_eq_some_iff.1 hc
      rw [hds]
      exact List.takeWhile_cons_of_neg (by decide)
    rw [readAttribute, hnone] at h
    cases h
  have hne : (trimStart cs).isEmpty = false := by
    cases hcs : trimStart cs with
    | nil =>
      rw [hcs] at h
      cases h
    | cons => rfl
  rw [readMore]
  simp only [hne, Bool.false_eq_true, if_false]
  split
  · rename_i hn
    rw [if_neg hcomma] at hn
    cases hn.symm.trans h
  · rename_i a rest' hs
    rw [if_neg hcomma] at hs
    cases hs.symm.trans h
    rfl

/-- An item that follows a separator. -/
theorem readMore_separator (hs : IsSeparator separator) (hname : IsName item.1) :
    readMore (separator ++ (printItem item ++ rest)) = (readMore rest).map (item :: ·) := by
  have hblank {blank : List Char} (hb : ∀ c ∈ blank, isWhiteSpace c = true) :
      readAttribute (trimStart (blank ++ (printItem item ++ rest))) = some (item, rest) := by
    rw [trimStart, List.dropWhile_append_of_pos hb, ← trimStart, trimStart_printItem hname,
      readAttribute_printItem hname]
  rcases hs with rfl | ⟨-, hs⟩
  · exact readMore_comma (hblank (List.forall_mem_singleton.2 (by decide)))
  · exact readMore_blank (hblank hs)

theorem readMore_printSeparated (hnames : ∀ i ∈ items, IsName i.2.1)
    (hseparators : ∀ i ∈ items, IsSeparator i.1) :
    readMore (printSeparated items) = some (items.map (·.2)) := by
  induction items with
  | nil =>
    rw [readMore]
    rfl
  | cons i items ih =>
    have hi := List.mem_cons_self (a := i) (l := items)
    have hstep : readMore (i.1 ++ (printItem i.2 ++ printSeparated items)) =
        (readMore (printSeparated items)).map (i.2 :: ·) :=
      readMore_separator (hseparators i hi) (hnames i hi)
    have hrest := ih (fun j hj => hnames j (List.mem_cons_of_mem _ hj))
      fun j hj => hseparators j (List.mem_cons_of_mem _ hj)
    rw [← List.append_nil (printSeparated (i :: items)), printSeparated_cons_append,
      List.append_nil, hstep, hrest]
    rfl

/-- Joined attributes are read back, behind a space. -/
theorem readList_printJoined (hnames : ∀ i ∈ items, IsName i.2.1)
    (hseparators : ∀ i ∈ items.tail, IsSeparator i.1) :
    readList (' ' :: printJoined items) = some (items.map (·.2)) := by
  have hspace : isWhiteSpace ' ' = true := by decide
  cases items with
  | nil => simp [readList, printJoined, trimStart, hspace]
  | cons i items =>
    have hname := hnames i List.mem_cons_self
    have htrim : trimStart (' ' :: printJoined (i :: items)) =
        printItem i.2 ++ printSeparated items := by
      rw [trimStart, List.dropWhile_cons_of_pos hspace, ← trimStart, printJoined,
        trimStart_printItem hname]
    have hne : (printItem i.2 ++ printSeparated items).isEmpty = false := by simp [printItem]
    have hmore := readMore_printSeparated (fun j hj => hnames j (List.mem_cons_of_mem _ hj))
      hseparators
    simp [readList, htrim, hne, readAttribute_printItem hname, hmore]

theorem readList_printItems {items : List (String × String)} (h : ∀ item ∈ items, IsName item.1) :
    readList (printItems items) = some items := by
  cases items with
  | nil => rfl
  | cons item items =>
    rw [printItems_cons, readList_printJoined (isName_of_mem_map h) isSeparator_of_mem_map,
      List.map_map]
    exact congrArg some (List.map_id _)

/-- Attributes are read back in whatever order they were printed. -/
theorem parse_printItems {attributes : Attributes} {items : List (String × String)}
    (hs : Fields.Sorted attributes) (hp : items.Perm attributes)
    (h : ∀ item ∈ attributes, IsName item.1) : parse (printItems items) = attributes := by
  rw [parse, readList_printItems fun item hi => h item (hp.mem_iff.1 hi)]
  exact Fields.ofList_of_perm hs hp

end Attributes

/-! ## The end of the tag is found -/

theorem splitOpening_cons {c : Char} (hq : c ≠ '\x27') (he : c ≠ '>') :
    splitOpening false (c :: rest) = (splitOpening false rest).map (prepend [c]) := by
  rw [splitOpening]
  · simp only [hq, he, if_false, decide_false, Bool.false_and, Bool.false_eq_true]
    rfl
  · exact nofun
  · exact nofun

/-- Outside quotes a text without quotes and `>` is passed over. -/
theorem splitOpening_append {cs : List Char} (hq : '\x27' ∉ cs) (he : '>' ∉ cs) :
    splitOpening false (cs ++ rest) = (splitOpening false rest).map (prepend cs) := by
  induction cs with
  | nil => simp
  | cons c cs ih =>
    rw [List.mem_cons, not_or] at hq he
    rw [List.cons_append, splitOpening_cons (Ne.symm hq.1) (Ne.symm he.1), ih hq.2 he.2]
    simp

/-- Inside quotes the text up to the closing quote is passed over. -/
theorem splitOpening_escape (cs : List Char) :
    splitOpening true (escape cs ++ '\x27' :: rest) =
      (splitOpening false rest).map (prepend (escape cs ++ ['\x27'])) := by
  induction cs with
  | nil => rfl
  | cons c cs ih =>
    rw [escape_cons, escapeChar]
    split
    · show (splitOpening true (escape cs ++ '\x27' :: rest)).map (prepend ['\\', c]) = _
      simp [ih]
    · rename_i h
      simp only [Bool.or_eq_true, decide_eq_true_eq, not_or] at h
      have hc : splitOpening true (c :: (escape cs ++ '\x27' :: rest)) =
          (splitOpening true (escape cs ++ '\x27' :: rest)).map (prepend [c]) := by
        rw [splitOpening]
        · simp only [h.1, if_false, Bool.not_true, Bool.and_false, Bool.false_eq_true]
          rfl
        · exact fun _ hb => absurd hb h.2
        · exact fun _ _ _ hb => absurd hb h.2
      simp [hc, ih]

theorem IsName.not_mem {name : String} (h : IsName name) {c : Char} (hc : isWord c = false) :
    c ∉ name.toList := fun hm => by
  rw [h.2 c hm] at hc
  cases hc

theorem splitOpening_printItem {item : String × String} (h : IsName item.1) :
    splitOpening false (printItem item ++ rest) =
      (splitOpening false rest).map (prepend (printItem item)) := by
  have hq : '\x27' ∉ item.1.toList ++ [':'] := by
    simpa using h.not_mem (c := '\x27') (by decide)
  have he : '>' ∉ item.1.toList ++ [':'] := by simpa using h.not_mem (c := '>') (by decide)
  have hs : printItem item ++ rest = (item.1.toList ++ [':']) ++
      '\x27' :: (escape item.2.toList ++ '\x27' :: rest) := by simp [printItem]
  have ho : splitOpening false ('\x27' :: (escape item.2.toList ++ '\x27' :: rest)) =
      (splitOpening true (escape item.2.toList ++ '\x27' :: rest)).map (prepend ['\x27']) := rfl
  rw [hs, splitOpening_append hq he, ho, splitOpening_escape]
  simp [printItem]

theorem splitOpening_separator (hs : IsSeparator separator) :
    splitOpening false (separator ++ rest) =
      (splitOpening false rest).map (prepend separator) := by
  rcases hs with rfl | ⟨-, hs⟩
  · exact splitOpening_append (by decide) (by decide)
  · refine splitOpening_append (fun hm => ?_) fun hm => ?_
    · exact absurd (hs _ hm) (by decide)
    · exact absurd (hs _ hm) (by decide)

theorem splitOpening_printSeparated (hnames : ∀ i ∈ items, IsName i.2.1)
    (hseparators : ∀ i ∈ items, IsSeparator i.1) :
    splitOpening false (printSeparated items ++ rest) =
      (splitOpening false rest).map (prepend (printSeparated items)) := by
  induction items with
  | nil => simp [printSeparated]
  | cons i items ih =>
    have hi := List.mem_cons_self (a := i) (l := items)
    have hrest := ih (fun j hj => hnames j (List.mem_cons_of_mem _ hj))
      fun j hj => hseparators j (List.mem_cons_of_mem _ hj)
    rw [printSeparated_cons_append, splitOpening_separator (hseparators i hi),
      splitOpening_printItem (hnames i hi), hrest]
    simp [printSeparated]

/-- No `>` in joined attributes ends the tag. -/
theorem splitOpening_printJoined (hnames : ∀ i ∈ items, IsName i.2.1)
    (hseparators : ∀ i ∈ items.tail, IsSeparator i.1) :
    splitOpening false (printJoined items ++ rest) =
      (splitOpening false rest).map (prepend (printJoined items)) := by
  cases items with
  | nil => simp [printJoined]
  | cons i items =>
    have hmore : ∀ j ∈ items, IsName j.2.1 := fun j hj => hnames j (List.mem_cons_of_mem _ hj)
    rw [printJoined, List.append_assoc, splitOpening_printItem (hnames i List.mem_cons_self),
      splitOpening_printSeparated hmore hseparators]
    simp

/-- Printed attributes are passed over. -/
theorem splitOpening_printItems {items : List (String × String)}
    (h : ∀ item ∈ items, IsName item.1) :
    splitOpening false (printItems items ++ rest) =
      (splitOpening false rest).map (prepend (printItems items)) := by
  cases items with
  | nil => simp [printItems]
  | cons item items =>
    rw [printItems_cons, ← List.singleton_append, List.append_assoc,
      splitOpening_append (by decide) (by decide),
      splitOpening_printJoined (isName_of_mem_map h) isSeparator_of_mem_map]
    simp

theorem splitOpening_close : splitOpening false ('>' :: rest) = some ([], rest) := rfl

/-! ## Tags that close themselves -/

theorem trimEnd_eq_self (cs : List Char) (h : ∀ c ∈ cs.getLast?, isWhiteSpace c = false) :
    trimEnd cs = cs := by
  rw [← List.head?_reverse] at h
  rw [trimEnd, List.reverse_eq_iff]
  cases hc : cs.reverse with
  | nil => rfl
  | cons c ds =>
    rw [hc] at h
    exact List.dropWhile_cons_of_neg (by simp [h c rfl])

theorem getLast?_printItem (item : String × String) : (printItem item).getLast? = some '\x27' := by
  simp [printItem, List.getLast?_cons]

theorem getLast?_printMore (items : List (String × String)) :
    ∀ c ∈ (printMore items).getLast?, c = '\x27' := by
  induction items with
  | nil => exact nofun
  | cons item items ih =>
    have hc : printMore (item :: items) = [',', ' '] ++ printItem item ++ printMore items := rfl
    intro c h
    rw [hc, List.getLast?_append, List.getLast?_append, getLast?_printItem] at h
    cases hm : (printMore items).getLast? with
    | none =>
      rw [hm] at h
      exact (Option.some.inj h).symm
    | some d =>
      rw [hm] at h
      exact Option.some.inj h ▸ ih d hm

/-- Printed attributes end in a quote. -/
theorem getLast?_printItems (items : List (String × String)) :
    ∀ c ∈ (printItems items).getLast?, c = '\x27' := by
  cases items with
  | nil => exact nofun
  | cons item items =>
    have hc : printItems (item :: items) = [' '] ++ printItem item ++ printMore items := rfl
    have ih := getLast?_printMore items
    intro c h
    rw [hc, List.getLast?_append, List.getLast?_append, getLast?_printItem] at h
    cases hm : (printMore items).getLast? with
    | none =>
      rw [hm] at h
      exact (Option.some.inj h).symm
    | some d =>
      rw [hm] at h
      exact Option.some.inj h ▸ ih d hm

theorem isSelfClosing_printItems (items : List (String × String)) :
    isSelfClosing (printItems items) = false := by
  have hl := getLast?_printItems items
  have ht := trimEnd_eq_self (printItems items) fun c hc => by rw [hl c hc]; decide
  rw [isSelfClosing, ht, decide_eq_false_iff_not]
  intro h
  exact absurd (hl _ h) (by decide)

theorem isSelfClosing_concat (cs : List Char) : isSelfClosing (cs ++ ['/']) = true := by
  have ht := trimEnd_eq_self (cs ++ ['/']) fun c hc => by
    rw [List.getLast?_concat, Option.mem_some_iff] at hc
    subst hc
    decide
  simp [isSelfClosing, ht]

theorem attributeText_printItems (items : List (String × String)) :
    attributeText (printItems items) = printItems items := by
  simp [attributeText, isSelfClosing_printItems]

theorem attributeText_concat (cs : List Char) : attributeText (cs ++ ['/']) = cs := by
  have ht := trimEnd_eq_self (cs ++ ['/']) fun c hc => by
    rw [List.getLast?_concat, Option.mem_some_iff] at hc
    subst hc
    decide
  simp [attributeText, isSelfClosing_concat, ht]

end

end Stencil.Markup
