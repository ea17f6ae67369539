import Stencil.Proofs.Resource.Names

/-!
# Directories keep to their root

A text that a directory loads is the content of a regular file below its root
(`Directory.load_confined`), whatever links there are in the tree. The name alone does not tell: each
of its segments may be a link, and the target of a link may go up and come back. So the check is made
on the path that the links lead to, and it counts because such a path is real (`IsReal`): no link
stands on it, and no segment of it goes up.
-/

namespace Stencil

/-! ## Paths without links -/

/-- A name that an entry may have. -/
def IsEntryName (name : String) : Prop :=
  name ≠ "" ∧ name ≠ "." ∧ name ≠ ".." ∧ '/' ∉ name.toList

theorem not_mem_of_mem_splitOn {cs part : List Char} (h : part ∈ cs.splitOn '/') : '/' ∉ part := by
  by_cases hcs : '/' ∈ cs
  · obtain ⟨first, rest, rfl, hfirst⟩ := List.eq_append_cons_of_mem hcs
    rw [List.splitOn_append_cons_self_of_not_mem hfirst, List.mem_cons] at h
    rcases h with rfl | h
    · exact hfirst
    · exact not_mem_of_mem_splitOn h
  · rw [List.splitOn_eq_singleton hcs, List.mem_singleton] at h
    exact h ▸ hcs
termination_by cs.length
decreasing_by
  rw [‹cs = _›, List.length_append, List.length_cons]
  omega

theorem not_mem_of_mem_segments {text segment : String} (h : segment ∈ segments text) :
    '/' ∉ segment.toList := by
  obtain ⟨part, hpart, rfl⟩ := List.mem_map.1 h
  rw [String.toList_ofList]
  exact not_mem_of_mem_splitOn hpart

namespace FileTree

/-- A path that leads to its own end: it goes down through names only, and no link stands on it. -/
structure IsReal (tree : FileTree) (path : Path) : Prop where
  isEntryName : ∀ s ∈ path, IsEntryName s
  not_link : ∀ p, p <+: path → ∀ target, tree.lookup p ≠ some (.link target)

section

variable {tree : FileTree} {here real : Path}

theorem isReal_nil (tree : FileTree) : tree.IsReal [] where
  isEntryName := nofun
  not_link p hp target := by
    rw [List.prefix_nil.1 hp]
    exact nofun

theorem IsReal.dropLast (h : tree.IsReal here) : tree.IsReal here.dropLast where
  isEntryName s hs := h.isEntryName s (List.dropLast_subset _ hs)
  not_link p hp := h.not_link p (hp.trans (List.dropLast_prefix here))

theorem IsReal.concat (h : tree.IsReal here) {name : String} (hname : IsEntryName name)
    (hlink : ∀ target, tree.lookup (here ++ [name]) ≠ some (.link target)) :
    tree.IsReal (here ++ [name]) where
  isEntryName s hs := by
    rcases List.mem_append.1 hs with hs | hs
    · exact h.isEntryName s hs
    · exact List.mem_singleton.1 hs ▸ hname
  not_link p hp := by
    rcases List.prefix_concat_iff.1 hp with rfl | hp
    · exact hlink
    · exact h.not_link p hp

theorem isEntryName_of_segment {segment : String} (hstay : ¬ (segment = "" ∨ segment = "."))
    (hup : ¬ segment = "..") (hslash : '/' ∉ segment.toList) : IsEntryName segment :=
  ⟨fun h => hstay (.inl h), fun h => hstay (.inr h), hup, hslash⟩

/-- What a path leads to from a real path is real. -/
theorem isReal_resolveFrom {links : Nat} {path : List String} (h : tree.IsReal here)
    (hpath : ∀ s ∈ path, '/' ∉ s.toList) (hr : tree.resolveFrom links here path = .ok real) :
    tree.IsReal real := by
  fun_induction resolveFrom tree links here path with
  | case1 links here =>
    cases hr
    exact h
  | case2 links here segment rest _ ih =>
    exact ih h (fun s hs => hpath s (List.mem_cons_of_mem _ hs)) hr
  | case3 links here rest _ ih =>
    exact ih h.dropLast (fun s hs => hpath s (List.mem_cons_of_mem _ hs)) hr
  | case4 | case7 | case8 => cases hr
  | case5 links here segment rest hstay hup hentry ih =>
    have hname := isEntryName_of_segment hstay hup (hpath segment List.mem_cons_self)
    have hhere := h.concat hname (by simp [hentry])
    exact ih hhere (fun s hs => hpath s (List.mem_cons_of_mem _ hs)) hr
  | case6 links here segment rest hstay hup content hentry _ =>
    have hname := isEntryName_of_segment hstay hup (hpath segment List.mem_cons_self)
    cases hr
    exact h.concat hname (by simp [hentry])
  | case9 here segment rest hstay hup target hentry links start ih =>
    -- The link itself is left behind: the search goes on from the directory it stands in.
    have hstart : tree.IsReal start := by
      simp only [start]
      split
      · exact isReal_nil tree
      · exact h
    refine ih hstart (fun s hs => ?_) hr
    rcases List.mem_append.1 hs with hs | hs
    · exact not_mem_of_mem_segments hs
    · exact hpath s (List.mem_cons_of_mem _ hs)

end

end FileTree

/-! ## What a directory reads -/

namespace Directory

theorem isReal_root {tree : FileTree} {here : Path} (hhere : tree.IsReal here) {root : String}
    {d : Directory} (h : open? tree here root = .ok d) :
    d.tree = tree ∧ tree.resolve here (segments root) = .ok d.root ∧ tree.IsReal d.root := by
  unfold open? at h
  split at h
  · rename_i real hreal
    cases h
    exact ⟨rfl, hreal, FileTree.isReal_resolveFrom hhere (fun s => not_mem_of_mem_segments) hreal⟩
  · cases h

theorem ne_of_isSegment {s : String} (h : isSegment s = true) :
    s ≠ "" ∧ s ≠ "." ∧ s ≠ ".." := by
  simp only [isSegment, Bool.and_eq_true, decide_eq_true_eq] at h
  exact ⟨h.1.1.1, h.1.1.2, h.1.2⟩

/-- A slash at the beginning makes an empty segment only. -/
theorem filter_segments_stripRoot (name : String) :
    (segments (stripRoot name)).filter (· ≠ "") = (segments name).filter (· ≠ "") := by
  by_cases h : ['/'] <+: name.toList
  · obtain ⟨rest, hrest⟩ := h
    have hname : name = String.ofList ([] ++ '/' :: rest) := by
      rw [← String.toList_inj, ← hrest]
      simp
    rw [stripRoot_of_slash hrest.symm, hname, segments_slash]
    rfl
  · rw [stripRoot_of_not_slash h]

/-- The segments that are looked up are the non-empty ones of the name. -/
theorem segmentsOf_eq_filter {name : String} {path : List String} (h : segmentsOf name = .ok path) :
    path = (segments name).filter (· ≠ "") := by
  obtain ⟨rfl, -, hall⟩ := segmentsOf_eq_ok h
  rw [← filter_segments_stripRoot, List.filter_eq_self.2]
  exact fun s hs => decide_eq_true (ne_of_isSegment (hall s hs)).1

/-- Whatever is loaded is the text of a regular file that the segments of the canonical name lead to
from the root, and whose path without links goes through the root. -/
theorem load_confined {tree : FileTree} {here : Path} (hhere : tree.IsReal here) {root : String}
    {d : Directory} (hopen : open? tree here root = .ok d) (extension : Option String)
    {name text : String} (h : { d with extension := extension }.loader.load name = .ok text) :
    ∃ path real content,
      path = (segments ({ d with extension := extension }.canonicalName name)).filter (· ≠ "") ∧
      (∀ s ∈ path, s ≠ "." ∧ s ≠ "..") ∧
      tree.resolve here (segments root) = .ok d.root ∧
      tree.resolve d.root path = .ok real ∧
      tree.IsReal d.root ∧ tree.IsReal real ∧ d.root <+: real ∧
      tree.lookup real = some (.file content) ∧ String.fromUTF8? content = some text := by
  obtain ⟨rfl, hroot, hrootReal⟩ := isReal_root hhere hopen
  obtain ⟨path, real, content, hpath, hreal, hwithin, hcontent, htext⟩ := read_eq_ok_iff.1 h
  have hsegments := (segmentsOf_eq_ok hpath).1
  have hnames := (segmentsOf_eq_ok hpath).2.2
  have hrealReal : d.tree.IsReal real :=
    FileTree.isReal_resolveFrom hrootReal
      (fun s hs => not_mem_of_mem_segments (hsegments ▸ hs)) hreal
  exact ⟨path, real, content, segmentsOf_eq_filter hpath,
    fun s hs => (ne_of_isSegment (hnames s hs)).2, hroot, hreal, hrootReal, hrealReal,
    List.isPrefixOf_iff_prefix.1 hwithin, hcontent, htext⟩

/-- A root that is reached through a link, and in it a link that goes up and comes back. -/
def site : FileTree :=
  [(["srv"], .directory), (["srv", "site"], .link "www"), (["srv", "www"], .directory),
    (["srv", "www", "card.tpl"], .file "card".toUTF8), (["srv", "www", "latest"], .link "../site/.")]

theorem isReal_srv : site.IsReal ["srv"] where
  isEntryName := by
    simp only [List.mem_singleton, forall_eq]
    exact ⟨by decide, by decide, by decide, by decide⟩
  not_link p hp target := by
    rcases List.prefix_concat_iff.1 (show p <+: [] ++ ["srv"] from hp) with rfl | hp
    · exact nofun
    · rw [List.prefix_nil.1 hp]
      exact nofun

theorem site_confined :
    site.IsReal ["srv"] ∧ open? site ["srv"] "site" = .ok ⟨site, ["srv", "www"], none⟩ ∧
      (⟨site, ["srv", "www"], some "tpl"⟩ : Directory).loader.load "/latest/card" = .ok "card" ∧
      ∃ path real content,
        path = (segments ((⟨site, ["srv", "www"], some "tpl"⟩ : Directory).canonicalName
          "/latest/card")).filter (· ≠ "") ∧
        (∀ s ∈ path, s ≠ "." ∧ s ≠ "..") ∧
        site.resolve ["srv"] (segments "site") = .ok ["srv", "www"] ∧
        site.resolve ["srv", "www"] path = .ok real ∧
        site.IsReal ["srv", "www"] ∧ site.IsReal real ∧ ["srv", "www"] <+: real ∧
        site.lookup real = some (.file content) ∧ String.fromUTF8? content = some "card" := by
  have hsite : segments "site" = ["site"] := by decide +kernel
  have hwww : segments "www" = ["www"] := by decide +kernel
  have hup : segments "../site/." = ["..", "site", "."] := by decide +kernel
  have hroot : site.resolve ["srv"] (segments "site") = .ok ["srv", "www"] := by
    simp [FileTree.resolve, FileTree.resolveFrom, FileTree.maxLinks, FileTree.lookup, site, hsite,
      hwww]
  have hopen : open? site ["srv"] "site" = .ok ⟨site, ["srv", "www"], none⟩ := by
    rw [open?, hroot]
  have hreal : site.resolve ["srv", "www"] ["latest", "card.tpl"] =
      .ok ["srv", "www", "card.tpl"] := by
    simp [FileTree.resolve, FileTree.resolveFrom, FileTree.maxLinks, FileTree.lookup, site, hup,
      hwww]
  have hpath : segmentsOf ((⟨site, ["srv", "www"], some "tpl"⟩ : Directory).canonicalName
      "/latest/card") = .ok ["latest", "card.tpl"] := eq_ok_of_toOption (by decide +kernel)
  have hload : (⟨site, ["srv", "www"], some "tpl"⟩ : Directory).loader.load "/latest/card" =
      .ok "card" :=
    read_eq_ok_iff.2 ⟨_, _, _, hpath, hreal, rfl, rfl, dif_pos "card".isValidUTF8⟩
  exact ⟨isReal_srv, hopen, hload, load_confined isReal_srv hopen (some "tpl") hload⟩

end Directory

end Stencil
