import Mathlib.Data.List.DropRight
import Stencil.Text.WhiteSpace

/-!
# White space at the ends of a text

What `trim` takes away and what it leaves: nothing of a blank text (`trim_eq_nil_iff`), nothing that
has no white space at its ends (`trim_trim`), and no part that stands before a text that is not
blank (`trimEnd_append`). A text is its trimmed part between two blank ones (`eq_blanks_trim`).
-/

namespace Stencil.Text

variable {c : Char} {cs ds es : List Char}

theorem isBlank_iff : isBlank cs = true ↔ ∀ c ∈ cs, isWhiteSpace c = true := List.all_eq_true

theorem isBlank_blanks (cs : List Char) : isBlank (blanks cs) = true :=
  isBlank_iff.2 fun _ hc => List.mem_takeWhile_imp hc

theorem isBlank_trailingBlanks (cs : List Char) : isBlank (trailingBlanks cs) = true :=
  isBlank_iff.2 fun _ hc => List.mem_takeWhile_imp (List.mem_reverse.1 hc)

theorem not_mem_of_isBlank (h : isBlank cs = true) (hc : isWhiteSpace c = false) : c ∉ cs :=
  fun hm => Bool.false_ne_true (hc.symm.trans (isBlank_iff.1 h c hm))

/-! ## At the beginning -/

theorem trimStart_append (h : isBlank cs = true) : trimStart (cs ++ ds) = trimStart ds :=
  List.dropWhile_append_of_pos (isBlank_iff.1 h)

theorem trimStart_cons_of_not (h : isWhiteSpace c = false) : trimStart (c :: cs) = c :: cs :=
  List.dropWhile_cons_of_neg (by simp [h])

theorem trimStart_eq_nil_iff : trimStart cs = [] ↔ isBlank cs = true :=
  List.dropWhile_eq_nil_iff.trans isBlank_iff.symm

/-- What is left begins with a character that is not white space. -/
theorem isWhiteSpace_of_trimStart (h : trimStart cs = c :: ds) : isWhiteSpace c = false := by
  have hhead : (cs.dropWhile isWhiteSpace).head? = some c := by rw [← trimStart, h, List.head?_cons]
  simpa [hhead] using List.head?_dropWhile_not isWhiteSpace cs

theorem blanks_append (h : isBlank cs = true) : blanks (cs ++ ds) = cs ++ blanks ds :=
  List.takeWhile_append_of_pos (isBlank_iff.1 h)

/-- Nothing is taken from a text that was trimmed, nor from the beginning of such a text. -/
theorem trimStart_of_trimStart_eq (h : trimStart cs = ds ++ es) : trimStart ds = ds := by
  cases ds with
  | nil => rfl
  | cons c ds => exact trimStart_cons_of_not (isWhiteSpace_of_trimStart h)

theorem blanks_eq_nil (h : trimStart cs = cs) : blanks cs = [] := by
  have hcs := blanks_append_trimStart cs
  rwa [h, List.append_left_eq_self] at hcs

/-! ## At the end -/

theorem trimEnd_eq_nil_iff : trimEnd cs = [] ↔ isBlank cs = true := by
  rw [trimEnd, List.reverse_eq_nil_iff, List.dropWhile_eq_nil_iff, isBlank_iff]
  simp only [List.mem_reverse]

theorem trailingBlanks_of_isBlank (h : isBlank cs = true) : trailingBlanks cs = cs := by
  have hcs := trimEnd_append_trailingBlanks cs
  rwa [trimEnd_eq_nil_iff.2 h, List.nil_append] at hcs

/-- What stands before a text that is not blank is not at the end. -/
theorem trimEnd_append (h : isBlank ds = false) : trimEnd (cs ++ ds) = cs ++ trimEnd ds := by
  have hne : (ds.reverse.dropWhile isWhiteSpace).isEmpty = false := by
    rw [List.isEmpty_eq_false_iff]
    intro he
    have hblank := trimEnd_eq_nil_iff.1 (show trimEnd ds = [] by rw [trimEnd, he]; rfl)
    exact Bool.false_ne_true (h.symm.trans hblank)
  rw [trimEnd, List.reverse_append, List.dropWhile_append, hne]
  simp [trimEnd]

theorem trimEnd_cons (h : isBlank (c :: cs) = false) : trimEnd (c :: cs) = c :: trimEnd cs := by
  cases hcs : isBlank cs with
  | false =>
    rw [← List.singleton_append, trimEnd_append hcs]
    rfl
  | true =>
    have hc : isWhiteSpace c = false := by
      simpa [isBlank, Bool.and_eq_false_iff, show cs.all isWhiteSpace = true from hcs] using h
    have hrev : cs.reverse.dropWhile isWhiteSpace = [] :=
      List.reverse_eq_nil_iff.1 (trimEnd_eq_nil_iff.2 hcs)
    rw [trimEnd_eq_nil_iff.2 hcs, trimEnd, List.reverse_cons, List.dropWhile_append, hrev]
    simp [hc]

theorem trailingBlanks_cons (h : isBlank (c :: cs) = false) :
    trailingBlanks (c :: cs) = trailingBlanks cs := by
  have hcs := trimEnd_append_trailingBlanks (c :: cs)
  rw [trimEnd_cons h, List.cons_append] at hcs
  exact List.append_cancel_left
    ((List.cons.inj hcs).2.trans (trimEnd_append_trailingBlanks cs).symm)

theorem mem_trimEnd_append (h : c ∈ trimEnd ds) : c ∈ trimEnd (cs ++ ds) := by
  have hds : isBlank ds = false :=
    Bool.eq_false_iff.2 fun hb => List.ne_nil_of_mem h (trimEnd_eq_nil_iff.2 hb)
  rw [trimEnd_append hds]
  exact List.mem_append_right cs h

theorem trimEnd_trimEnd (cs : List Char) : trimEnd (trimEnd cs) = trimEnd cs := by
  rw [trimEnd, trimEnd, List.reverse_reverse, List.dropWhile_idempotent]

/-! ## At both ends -/

theorem trim_eq_nil_iff : trim cs = [] ↔ isBlank cs = true := by
  rw [trim, trimEnd_eq_nil_iff, isBlank_iff]
  constructor
  · intro h
    have hcs : trimStart cs = [] := by
      cases ht : trimStart cs with
      | nil => rfl
      | cons c ds =>
        have hc := isWhiteSpace_of_trimStart ht
        exact absurd (h c (ht ▸ List.mem_cons_self)) (by simp [hc])
    exact trimStart_eq_nil_iff.1 hcs
  · intro h
    rw [trimStart_eq_nil_iff.2 h]
    exact fun c hc => absurd hc List.not_mem_nil

/-- A text is its trimmed part between two blank ones. -/
theorem eq_blanks_trim (cs : List Char) :
    blanks cs ++ (trim cs ++ trailingBlanks (trimStart cs)) = cs := by
  rw [trim, trimEnd_append_trailingBlanks, blanks_append_trimStart]

theorem trim_trim (cs : List Char) : trim (trim cs) = trim cs := by
  have hstart : trimStart (trim cs) = trim cs :=
    trimStart_of_trimStart_eq (trimEnd_append_trailingBlanks (trimStart cs)).symm
  rw [trim, hstart, trim, trimEnd_trimEnd]

theorem mem_of_mem_trim (h : c ∈ trim cs) : c ∈ cs := by
  rw [← eq_blanks_trim cs]
  exact List.mem_append_right _ (List.mem_append_left _ h)

end Stencil.Text
