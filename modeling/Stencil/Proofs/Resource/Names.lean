import Stencil.Resource.Directory
import Stencil.Resource.Store

/-!
# Canonical names

A loader is asked for a template under its canonical name, which is made from the name once more
whenever it passes a loader. For that to do no harm a canonical name would have to be its own
canonical name, and a template would have to have one canonical name only. Neither holds of every
name: one slash is taken off the beginning each time, and a name that ends in a slash gets an
extension each time.

* `IsSettled` describes the names for which nothing is left to be taken off or added, and
  `canonicalName_normal` says that the canonical name is a normal form of exactly these.
* Names that read the same template have the same canonical name, if they agree on whether they begin
  with two slashes, and only then.
-/

namespace Stencil

open Stencil.Text

/-! ## Slashes at the beginning -/

section

variable {name : String}

theorem stripRoot_of_slash {rest : List Char} (h : name.toList = '/' :: rest) :
    stripRoot name = String.ofList rest := by
  simp only [stripRoot, h]

theorem stripRoot_of_not_slash (h : ¬ ['/'] <+: name.toList) : stripRoot name = name := by
  unfold stripRoot
  split
  · rename_i rest hname
    exact absurd ⟨rest, hname.symm⟩ h
  · rfl

/-- A slash is left at the beginning only of a name that began with two. -/
theorem slash_stripRoot_iff :
    ['/'] <+: (stripRoot name).toList ↔ ['/', '/'] <+: name.toList := by
  by_cases h : ['/'] <+: name.toList
  · obtain ⟨rest, hname⟩ := h
    rw [stripRoot_of_slash hname.symm, String.toList_ofList, ← hname]
    simp [List.cons_prefix_cons]
  · rw [stripRoot_of_not_slash h]
    exact iff_of_false h fun hd => h (List.IsPrefix.trans ⟨['/'], rfl⟩ hd)

theorem length_stripRoot_of_slash (h : ['/'] <+: name.toList) :
    (stripRoot name).length + 1 = name.length := by
  obtain ⟨rest, hname⟩ := h
  rw [stripRoot_of_slash hname.symm, String.length_ofList, ← String.length_toList, ← hname]
  rfl

/-- Names that both begin with a slash or both do not are the same if they are so without it. -/
theorem eq_of_stripRoot_eq {other : String} (h : stripRoot name = stripRoot other)
    (hs : ['/'] <+: name.toList ↔ ['/'] <+: other.toList) : name = other := by
  by_cases hname : ['/'] <+: name.toList
  · obtain ⟨rest, hrest⟩ := hname
    obtain ⟨rest', hrest'⟩ := hs.1 ⟨rest, hrest⟩
    have hrests : rest = rest' := by
      rwa [stripRoot_of_slash hrest.symm, stripRoot_of_slash hrest'.symm, String.ofList_inj] at h
    rw [← String.toList_inj, ← hrest, ← hrest', hrests]
  · rwa [stripRoot_of_not_slash hname, stripRoot_of_not_slash (mt hs.2 hname)] at h

theorem stripRoot_eq_self_iff : stripRoot name = name ↔ ¬ ['/'] <+: name.toList := by
  refine ⟨fun h hs => ?_, stripRoot_of_not_slash⟩
  have := length_stripRoot_of_slash hs
  rw [h] at this
  omega

end

/-! ## The last segment -/

/-- The last segment of a name. -/
def lastSegment (name : String) : String := (segments name).getLastD ""

/-- A text is its own last segment, or the last segment stands behind a slash. -/
theorem exists_last_slash (cs : List Char) :
    '/' ∉ cs ∨ ∃ before last, cs = before ++ '/' :: last ∧ '/' ∉ last := by
  by_cases h : '/' ∈ cs.reverse
  · obtain ⟨last, before, hcs, hlast⟩ := List.eq_append_cons_of_mem h
    refine .inr ⟨before.reverse, last.reverse, ?_, by simpa using hlast⟩
    rw [← List.reverse_reverse cs, hcs]
    simp
  · exact .inl (by simpa using h)

theorem lastSegment_of_not_mem {name : String} (h : '/' ∉ name.toList) :
    lastSegment name = name := by
  rw [lastSegment, segments_of_not_mem h]
  rfl

theorem lastSegment_slash (before : List Char) {last : List Char} (h : '/' ∉ last) :
    lastSegment (String.ofList (before ++ '/' :: last)) = String.ofList last := by
  have hlast : '/' ∉ (String.ofList last).toList := by simpa
  rw [lastSegment, segments_slash, segments_of_not_mem hlast, List.getLastD_concat]

/-- What is written behind a name without a slash belongs to its last segment. -/
theorem lastSegment_append {name text : String} (h : '/' ∉ text.toList) :
    lastSegment (name ++ text) = lastSegment name ++ text := by
  rcases exists_last_slash name.toList with hname | ⟨before, last, hname, hlast⟩
  · rw [lastSegment_of_not_mem hname, lastSegment_of_not_mem (by simp [hname, h])]
  · have hwhole : name ++ text = String.ofList (before ++ '/' :: (last ++ text.toList)) := by
      rw [← String.toList_inj]
      simp [hname]
    rw [hwhole, lastSegment_slash before (by simp [hlast, h]),
      ← String.ofList_toList (s := name), hname, lastSegment_slash before hlast,
      String.ofList_append, String.ofList_toList]

theorem lastSegment_eq_empty_iff {name : String} :
    lastSegment name = "" ↔ name = "" ∨ ['/'] <:+ name.toList := by
  rcases exists_last_slash name.toList with hname | ⟨before, last, hname, hlast⟩
  · rw [lastSegment_of_not_mem hname]
    exact ⟨.inl, fun h => h.resolve_right fun hs => hname (hs.subset List.mem_cons_self)⟩
  · have hne : name ≠ "" := by
      rintro rfl
      simp at hname
    rw [← String.ofList_toList (s := name), hname, lastSegment_slash before hlast]
    constructor
    · intro h
      obtain rfl : last = [] := by simpa using h
      exact .inr ⟨before, by simp⟩
    · rintro (h | ⟨lead, h⟩)
      · simp at h
      · rw [String.toList_ofList] at h
        rcases List.eq_nil_or_concat last with rfl | ⟨front, c, rfl⟩
        · rfl
        · have h : lead ++ ['/'] = before ++ '/' :: front ++ [c] := by simpa using h
          cases (List.append_inj' h rfl).2
          simp at hlast

/-! ## Extensions -/

/-- An extension that may be asked for: at least one letter or digit, and nothing else. -/
def IsExtension (extension : String) : Prop :=
  extension ≠ "" ∧ ∀ c ∈ extension.toList, isAlphanumeric c = true

/-- A name with the extension added, if its last segment has none. -/
def extend (extension : Option String) (name : String) : String :=
  match extension with
  | none => name
  | some extension =>
    if name = "" || Directory.hasExtension (lastSegment name) then name
    else name ++ "." ++ extension

theorem canonicalName_eq_extend (d : Directory) (name : String) :
    d.canonicalName name = extend d.extension (stripRoot name) := rfl

theorem extend_cases (extension : Option String) (name : String) :
    extend extension name = name ∨
      ∃ e, extension = some e ∧ name ≠ "" ∧ extend extension name = name ++ "." ++ e := by
  cases extension with
  | none => exact .inl rfl
  | some e =>
    by_cases h : (name = "" || Directory.hasExtension (lastSegment name)) = true
    · exact .inl (if_pos h)
    · rw [Bool.or_eq_true, not_or, decide_eq_true_eq] at h
      exact .inr ⟨e, rfl, h.1, by simp [extend, h]⟩

theorem extend_of_hasExtension {name : String} (e : String)
    (h : Directory.hasExtension (lastSegment name) = true) : extend (some e) name = name := by
  simp [extend, h]

theorem extend_of_not_hasExtension {name : String} (e : String) (hname : name ≠ "")
    (h : Directory.hasExtension (lastSegment name) = false) :
    extend (some e) name = name ++ "." ++ e := by
  simp [extend, hname, h]

theorem length_extended (name e : String) :
    (name ++ "." ++ e).length = name.length + 1 + e.length := by
  have hdot : ".".length = 1 := rfl
  simp only [String.length_append, hdot]

theorem extended_ne (name e : String) : name ++ "." ++ e ≠ name := fun h => by
  have := congrArg String.length h
  rw [length_extended] at this
  omega

/-- An extension is added behind a name and does not change its beginning. -/
theorem slash_extend_iff {extension : Option String} {name : String} :
    ['/'] <+: (extend extension name).toList ↔ ['/'] <+: name.toList := by
  rcases extend_cases extension name with h | ⟨e, -, hname, h⟩
  · rw [h]
  · obtain ⟨c, cs, hc⟩ := List.exists_cons_of_ne_nil (mt String.toList_eq_nil_iff.1 hname)
    simp [h, hc, List.cons_prefix_cons]

theorem dot_not_mem {e : String} (h : IsExtension e) : '.' ∉ e.toList := fun hm => by
  have hdot : isAlphanumeric '.' = false := by decide
  rw [h.2 _ hm] at hdot
  cases hdot

theorem slash_not_mem_extension {e : String} (h : IsExtension e) : '/' ∉ ("." ++ e).toList := by
  have hslash : isAlphanumeric '/' = false := by decide
  rw [String.toList_append]
  refine fun hm => (List.mem_append.1 hm).elim (by decide) fun hm => ?_
  rw [h.2 _ hm] at hslash
  cases hslash

/-- A file name that an extension was added to has one, unless there was nothing before it. -/
theorem hasExtension_append {e : String} (h : IsExtension e) (name : String) :
    Directory.hasExtension (name ++ ("." ++ e)) = decide (name ≠ "") := by
  obtain ⟨c, cs, hc⟩ := List.exists_cons_of_ne_nil (mt String.toList_eq_nil_iff.1 h.1)
  have hdots : name ++ ("." ++ e) ≠ ".." := fun hdots => by
    have hmem : c ∈ (name ++ ("." ++ e)).toList := by simp [hc]
    rw [hdots] at hmem
    obtain rfl : c = '.' := by simpa using hmem
    exact dot_not_mem h (by simp [hc])
  have htail : (name ++ ("." ++ e)).toList.tail.contains '.' = decide (name ≠ "") := by
    cases hn : name.toList with
    | nil =>
      obtain rfl := String.toList_eq_nil_iff.1 hn
      simp [dot_not_mem h]
    | cons d ds =>
      have hne : name ≠ "" := mt String.toList_eq_nil_iff.2 (by simp [hn])
      simp [hn, hne]
  rw [Directory.hasExtension, htail, decide_eq_true hdots, Bool.true_and]

theorem lastSegment_extended {e : String} (h : IsExtension e) (name : String) :
    lastSegment (name ++ "." ++ e) = lastSegment name ++ ("." ++ e) := by
  rw [String.append_assoc, lastSegment_append (slash_not_mem_extension h)]

/-- A second extension is added only to a name that ended in a slash. -/
theorem extend_extend_iff {extension : Option String} (hext : ∀ e ∈ extension, IsExtension e)
    (name : String) :
    extend extension (extend extension name) = extend extension name ↔
      extension = none ∨ ¬ ['/'] <:+ name.toList := by
  cases extension with
  | none => exact iff_of_true rfl (.inl rfl)
  | some e =>
    have he := hext e rfl
    have hslash : (some e = none ∨ ¬ ['/'] <:+ name.toList) ↔
        name = "" ∨ lastSegment name ≠ "" := by
      by_cases hname : name = ""
      · simp [hname]
      · simp [lastSegment_eq_empty_iff, hname]
    rw [hslash]
    by_cases hname : name = ""
    · subst hname
      exact iff_of_true rfl (.inl rfl)
    by_cases hhas : Directory.hasExtension (lastSegment name) = true
    · have hlast : lastSegment name ≠ "" := fun h => by
        rw [h] at hhas
        cases hhas
      exact iff_of_true (congrArg _ (extend_of_hasExtension e hhas)) (.inr hlast)
    · rw [extend_of_not_hasExtension e hname (Bool.eq_false_iff.2 hhas)]
      have hagain := hasExtension_append he (lastSegment name)
      rw [← lastSegment_extended he] at hagain
      by_cases hlast : lastSegment name = ""
      · have hne : name ++ "." ++ e ≠ "" := by simp
        rw [extend_of_not_hasExtension e hne (by simpa [hlast] using hagain)]
        exact iff_of_false (extended_ne _ e) (by simp [hname, hlast])
      · exact iff_of_true (extend_of_hasExtension e (by simpa [hlast] using hagain)) (.inr hlast)

/-! ## Names for which nothing is left to do -/

/-- A name that does not begin with two slashes, and does not end in one where an extension would be
added. A single slash is such a name. -/
def IsSettled (extension : Option String) (name : String) : Prop :=
  ¬ ['/', '/'] <+: name.toList ∧ (extension = none ∨ ¬ ['/'] <:+ (stripRoot name).toList)

theorem stripRoot_stripRoot_iff {name : String} :
    stripRoot (stripRoot name) = stripRoot name ↔ IsSettled none name := by
  rw [stripRoot_eq_self_iff, slash_stripRoot_iff, IsSettled]
  simp

theorem Directory.canonicalName_canonicalName_iff {d : Directory}
    (hext : ∀ e ∈ d.extension, IsExtension e) (name : String) :
    d.canonicalName (d.canonicalName name) = d.canonicalName name ↔
      IsSettled d.extension name := by
  simp only [canonicalName_eq_extend, IsSettled, ← @slash_stripRoot_iff name]
  by_cases hslash : ['/'] <+: (stripRoot name).toList
  · refine iff_of_false (fun heq => ?_) (by simp [hslash])
    have hextended : ['/'] <+: (extend d.extension (stripRoot name)).toList :=
      slash_extend_iff.2 hslash
    have hlength := length_stripRoot_of_slash hextended
    rcases extend_cases d.extension (stripRoot (extend d.extension (stripRoot name)))
      with h | ⟨e, he, -, h⟩
    · rw [h] at heq
      rw [heq] at hlength
      omega
    · have hpos : e.length ≠ 0 := fun hzero => (hext e he).1 <| by
        rw [← String.length_toList, List.length_eq_zero_iff] at hzero
        exact String.toList_eq_nil_iff.1 hzero
      have := congrArg String.length (h.symm.trans heq)
      rw [length_extended] at this
      omega
  · rw [stripRoot_of_not_slash (mt slash_extend_iff.1 hslash), extend_extend_iff hext]
    simp [hslash]

/-! ## Names that read the same text -/

/-- Loading `name` from the shelf reads what stands under `key`, whatever that is. -/
def Shelf.Reads (shelf : Shelf) (name key : String) : Prop :=
  ∀ text, (Shelf.loader (Fields.insert key text shelf)).load name = .ok text

theorem Shelf.reads_iff {shelf : Shelf} {name key : String} :
    shelf.Reads name key ↔ key = stripRoot name := by
  have hload (text : String) : (Shelf.loader (Fields.insert key text shelf)).load name =
      if key = stripRoot name then .ok text else shelf.loader.load name := by
    simp only [loader, Fields.get?_insert]
    by_cases h : key = stripRoot name <;> simp [h]
  refine ⟨fun h => Decidable.byContradiction fun hne => ?_, fun h text => by rw [hload, if_pos h]⟩
  have h₁ := h "a"
  have h₂ := h "b"
  rw [hload, if_neg hne] at h₁ h₂
  simpa using h₁.symm.trans h₂

namespace Directory

/-- Loading `name` reads the file that `path` leads to from the root. -/
def Reads (d : Directory) (name : String) (path : List String) : Prop :=
  segmentsOf (d.canonicalName name) = .ok path ∧ ∃ text, d.loader.load name = .ok text

theorem segmentsOf_eq_ok {name : String} {path : List String} (h : segmentsOf name = .ok path) :
    path = segments (stripRoot name) ∧ stripRoot name ≠ "" ∧ ∀ s ∈ path, isSegment s = true := by
  unfold segmentsOf at h
  split at h
  · cases h
  · dsimp only at h
    split at h
    · cases h
    · rename_i hne
      split at h
      · cases h
      · rename_i hfind
        cases h
        refine ⟨rfl, hne, fun s hs => ?_⟩
        have := List.find?_eq_none.1 hfind s hs
        simpa using this

/-- Two names that read one file differ at most in a slash at the beginning of what they are made
into. -/
theorem Reads.stripRoot_eq {d : Directory} {name other : String} {path : List String}
    (h : d.Reads name path) (h' : d.Reads other path) :
    stripRoot (d.canonicalName name) = stripRoot (d.canonicalName other) :=
  segments_injective ((segmentsOf_eq_ok h.1).1.symm.trans (segmentsOf_eq_ok h'.1).1)

theorem slash_canonicalName_iff {d : Directory} {name : String} :
    ['/'] <+: (d.canonicalName name).toList ↔ ['/', '/'] <+: name.toList := by
  rw [canonicalName_eq_extend, slash_extend_iff, slash_stripRoot_iff]

theorem Reads.canonicalName_eq_iff {d : Directory} {name other : String} {path : List String}
    (h : d.Reads name path) (h' : d.Reads other path) :
    d.canonicalName name = d.canonicalName other ↔
      (['/', '/'] <+: name.toList ↔ ['/', '/'] <+: other.toList) := by
  simp only [← slash_canonicalName_iff (d := d)]
  exact ⟨fun heq => by rw [heq], eq_of_stripRoot_eq (h.stripRoot_eq h')⟩

end Directory

/-! ## What canonical names are good for -/

/-- The canonical name is its own canonical name exactly for settled names. On a shelf it determines
the text that is read; in a directory two names of one file have the same canonical name exactly if
both begin with two slashes or both do not. -/
theorem canonicalName_normal (shelf : Shelf) {d : Directory}
    (hext : ∀ e ∈ d.extension, IsExtension e) :
    (∀ name, shelf.loader.canonicalName (shelf.loader.canonicalName name) =
        shelf.loader.canonicalName name ↔ IsSettled none name) ∧
    (∀ name other key, shelf.Reads name key → shelf.Reads other key →
      shelf.loader.canonicalName name = shelf.loader.canonicalName other) ∧
    (∀ name, d.loader.canonicalName (d.loader.canonicalName name) =
        d.loader.canonicalName name ↔ IsSettled d.extension name) ∧
    ∀ name other path, d.Reads name path → d.Reads other path →
      (d.loader.canonicalName name = d.loader.canonicalName other ↔
        (['/', '/'] <+: name.toList ↔ ['/', '/'] <+: other.toList)) :=
  ⟨fun _ => stripRoot_stripRoot_iff,
    fun _ _ _ h h' => (Shelf.reads_iff.1 h).symm.trans (Shelf.reads_iff.1 h'),
    Directory.canonicalName_canonicalName_iff hext,
    fun _ _ _ h h' => h.canonicalName_eq_iff h'⟩

/-- A directory with two templates, and the extension `tpl` for names without one. -/
def pages : Directory where
  tree := [(["www"], .directory), (["www", "a.tpl"], .file "A".toUTF8),
    (["www", "shared"], .directory), (["www", "shared", "card.tpl"], .file "card".toUTF8)]
  root := ["www"]
  extension := some "tpl"

theorem pages_extension : ∀ e ∈ pages.extension, IsExtension e := by
  rintro e ⟨⟩
  exact ⟨by decide, List.all_eq_true.1 (by decide +kernel)⟩

theorem pages_reads_card {name : String}
    (h : (Directory.segmentsOf (pages.canonicalName name)).toOption = some ["shared", "card.tpl"]) :
    pages.Reads name ["shared", "card.tpl"] := by
  have hreal : pages.tree.resolve pages.root ["shared", "card.tpl"] =
      .ok ["www", "shared", "card.tpl"] := by
    simp [FileTree.resolve, FileTree.resolveFrom, FileTree.lookup, pages]
  have hpath := eq_ok_of_toOption h
  exact ⟨hpath, "card", Directory.read_eq_ok_iff.2
    ⟨_, _, _, hpath, hreal, rfl, rfl, dif_pos "card".isValidUTF8⟩⟩

theorem pages_reads_a {name : String}
    (h : (Directory.segmentsOf (pages.canonicalName name)).toOption = some ["a.tpl"]) :
    pages.Reads name ["a.tpl"] := by
  have hreal : pages.tree.resolve pages.root ["a.tpl"] = .ok ["www", "a.tpl"] := by
    simp [FileTree.resolve, FileTree.resolveFrom, FileTree.lookup, pages]
  have hpath := eq_ok_of_toOption h
  exact ⟨hpath, "A", Directory.read_eq_ok_iff.2
    ⟨_, _, _, hpath, hreal, rfl, rfl, dif_pos "A".isValidUTF8⟩⟩

/-- Two names of one template that have one canonical name, which is settled. -/
theorem pages_canonicalName :
    (Shelf.Reads [] "/a" "a" ∧ Shelf.Reads [] "a" "a" ∧
      (Shelf.loader []).canonicalName "/a" = (Shelf.loader []).canonicalName "a") ∧
    (∀ e ∈ pages.extension, IsExtension e) ∧
    pages.loader.canonicalName (pages.loader.canonicalName "shared/card") =
      pages.loader.canonicalName "shared/card" ∧
    pages.Reads "shared/card" ["shared", "card.tpl"] ∧
    pages.Reads "/shared/card.tpl" ["shared", "card.tpl"] ∧
    pages.loader.canonicalName "shared/card" = pages.loader.canonicalName "/shared/card.tpl" := by
  obtain ⟨-, hshelf, hsettled, hnames⟩ := canonicalName_normal [] pages_extension
  have hrooted : Shelf.Reads [] "/a" "a" := Shelf.reads_iff.2 (by decide)
  have hplain : Shelf.Reads [] "a" "a" := Shelf.reads_iff.2 (by decide)
  have hcard : pages.Reads "shared/card" ["shared", "card.tpl"] :=
    pages_reads_card (by decide +kernel)
  have hcard' : pages.Reads "/shared/card.tpl" ["shared", "card.tpl"] :=
    pages_reads_card (by decide +kernel)
  refine ⟨⟨hrooted, hplain, hshelf _ _ _ hrooted hplain⟩, pages_extension, ?_, hcard, hcard', ?_⟩
  · exact (hsettled _).2 ⟨by decide, .inr (by decide)⟩
  · exact (hnames _ _ _ hcard hcard').2 (by decide)

/-- Two slashes at the beginning lead to the same template under a second canonical name, which is
not settled, and to a second template in a store. -/
theorem pages_doubled :
    (∀ e ∈ pages.extension, IsExtension e) ∧
    pages.Reads "a" ["a.tpl"] ∧ pages.Reads "//a" ["a.tpl"] ∧
    pages.loader.canonicalName "a" ≠ pages.loader.canonicalName "//a" ∧
    pages.loader.canonicalName (pages.loader.canonicalName "//a") ≠
      pages.loader.canonicalName "//a" ∧
    pages.loader.canonicalName (pages.loader.canonicalName "shared/") ≠
      pages.loader.canonicalName "shared/" ∧
    (Shelf.loader []).canonicalName ((Shelf.loader []).canonicalName "//a") ≠
      (Shelf.loader []).canonicalName "//a" ∧
    (((Store.load {} (Shelf.loader [("a", "A")]) {} "a").2.load (Shelf.loader [("a", "A")]) {}
      "//a").2.templates.map (·.1)) = ["/a", "a"] := by
  refine ⟨pages_extension, pages_reads_a (by decide +kernel), pages_reads_a (by decide +kernel),
    ?_, ?_, ?_, ?_, ?_⟩ <;> decide +kernel

end Stencil
