import Stencil.Markup.Trim

/-!
# The pieces of a body

The rules of trimming say what the four pieces of a body are (`Trimmed.Cuts`). The lead is a line
of spaces at the beginning, if there is one. The terminator is the longest line terminator at the
end of what remains, and the spaces are the longest run of spaces right before it.

The pieces that are computed follow the rules (`Trimmed.cuts_ofBody`), and the rules leave no choice
(`Trimmed.Cuts.eq_ofBody`), even for bodies of spaces and line breaks, in which the lead and the
terminator meet.
-/

namespace Stencil.Markup

/-- A line of `n` spaces. -/
def blankLine (n : Nat) : List Char := List.replicate n ' ' ++ ['\n']

/-- What a text may end in: a line terminator or nothing. -/
def terminators : List (List Char) := [['\r', '\n'], ['\n'], ['\r'], []]

namespace Trimmed

/-- The pieces of a body by the rules of trimming. -/
structure Cuts (cut : Trimmed) (body : List Char) : Prop where
  whole_eq : cut.lead ++ cut.content ++ cut.spaces ++ cut.terminator = body
  /-- The lead is a line of spaces at the beginning, and empty if there is none. -/
  lead : (∃ n, cut.lead = blankLine n) ∨ cut.lead = [] ∧ ∀ n, ¬ blankLine n <+: body
  terminator : cut.terminator ∈ terminators
  /-- What remains behind the lead does not end in a longer terminator. -/
  longest : ∀ t ∈ terminators, t <:+ cut.content ++ cut.spaces ++ cut.terminator →
    t <:+ cut.terminator
  spaces : ∃ n, cut.spaces = List.replicate n ' '
  /-- No longer run of spaces stands right before the terminator. -/
  maximal : ∀ n, List.replicate n ' ' <:+ cut.content ++ cut.spaces → n ≤ cut.spaces.length

/-! ## The lead -/

section

variable {cs rest : List Char} {n : Nat}

theorem takeWhile_replicate_append (n : Nat) (rest : List Char) :
    (List.replicate n ' ' ++ rest).takeWhile (· = ' ') =
      List.replicate n ' ' ++ rest.takeWhile (· = ' ') :=
  List.takeWhile_append_of_pos fun _ hc => decide_eq_true (List.eq_of_mem_replicate hc)

theorem dropWhile_replicate_append (n : Nat) (rest : List Char) :
    (List.replicate n ' ' ++ rest).dropWhile (· = ' ') = rest.dropWhile (· = ' ') :=
  List.dropWhile_append_of_pos fun _ hc => decide_eq_true (List.eq_of_mem_replicate hc)

theorem takeWhile_blankLine (n : Nat) (rest : List Char) :
    (blankLine n ++ rest).takeWhile (· = ' ') = List.replicate n ' ' := by
  rw [blankLine, List.append_assoc, takeWhile_replicate_append]
  exact List.append_nil _

theorem dropWhile_blankLine (n : Nat) (rest : List Char) :
    (blankLine n ++ rest).dropWhile (· = ' ') = '\n' :: rest := by
  rw [blankLine, List.append_assoc, dropWhile_replicate_append]
  rfl

/-- A line feed behind the first run of spaces ends a line of spaces. -/
theorem blankLine_append (h : cs.dropWhile (· = ' ') = '\n' :: rest) :
    blankLine (cs.takeWhile (· = ' ')).length ++ rest = cs := by
  rw [blankLine, ← takeWhile_space, List.append_assoc, List.singleton_append, ← h,
    List.takeWhile_append_dropWhile]

theorem splitLead_blankLine (n : Nat) (rest : List Char) :
    splitLead (blankLine n ++ rest) = (blankLine n, rest) := by
  rw [splitLead, dropWhile_blankLine, takeWhile_blankLine]
  rfl

theorem splitLead_of_not_isPrefix (h : ∀ n, ¬ blankLine n <+: cs) : splitLead cs = ([], cs) := by
  unfold splitLead
  split
  · rename_i rest hdrop
    exact absurd ⟨rest, blankLine_append hdrop⟩ (h _)
  · rfl

end

/-! ## The terminator -/

theorem splitTerminator_mem (cs : List Char) : (splitTerminator cs).2 ∈ terminators := by
  unfold splitTerminator
  split <;> simp [terminators]

/-- Every terminator that a text ends in ends the one that is cut off. -/
theorem isSuffix_splitTerminator {cs t : List Char} (ht : t ∈ terminators) (h : t <:+ cs) :
    t <:+ (splitTerminator cs).2 := by
  rw [← List.reverse_prefix] at h ⊢
  simp only [terminators, List.mem_cons, List.not_mem_nil, or_false] at ht
  unfold splitTerminator
  split
  · rename_i rest hcs
    rw [hcs] at h
    rcases ht with rfl | rfl | rfl | rfl <;> simp at h ⊢
  · rename_i rest hcr hcs
    rw [hcs] at h
    rcases ht with rfl | rfl | rfl | rfl
    · obtain ⟨more, hmore⟩ := (List.cons_prefix_cons.1 h).2
      exact (hcr more hmore.symm).elim
    all_goals simp at h ⊢
  · rename_i rest hcs
    rw [hcs] at h
    rcases ht with rfl | rfl | rfl | rfl <;> simp at h ⊢
  · -- none of the three line terminators ends the text
    rename_i hcrlf hlf hcr
    obtain ⟨more, hmore⟩ := h
    rcases ht with rfl | rfl | rfl | rfl
    · exact (hcrlf more hmore.symm).elim
    · exact (hlf more hmore.symm).elim
    · exact (hcr more hmore.symm).elim
    · exact List.prefix_rfl

/-! ## The spaces -/

/-- A text ends in `n` spaces if its last run of spaces is at least as long. -/
theorem replicate_isSuffix_iff {cs : List Char} {n : Nat} :
    List.replicate n ' ' <:+ cs ↔ n ≤ (cs.reverse.takeWhile (· = ' ')).length := by
  rw [← List.reverse_prefix, List.reverse_replicate]
  constructor
  · rintro ⟨rest, hrest⟩
    rw [← hrest, takeWhile_replicate_append, List.length_append, List.length_replicate]
    exact Nat.le_add_right _ _
  · intro h
    refine List.IsPrefix.trans ?_ (List.takeWhile_prefix (· = ' '))
    rw [takeWhile_space]
    exact ⟨List.replicate ((cs.reverse.takeWhile (· = ' ')).length - n) ' ',
      by rw [List.replicate_append_replicate, Nat.add_sub_cancel' h]⟩

/-! ## The rules and the pieces that are computed -/

/-- Content and spaces are what stands before the terminator. -/
theorem content_append_spaces (body : List Char) :
    (ofBody body).content ++ (ofBody body).spaces =
      (splitTerminator (splitLead body).2).1.reverse :=
  reverse_dropWhile_append_takeWhile _

/-- The pieces that are computed follow the rules. -/
theorem cuts_ofBody (body : List Char) : (ofBody body).Cuts body where
  whole_eq := whole_ofBody body
  lead := by
    by_cases h : ∃ n, blankLine n <+: body
    · obtain ⟨n, rest, rfl⟩ := h
      exact .inl ⟨n, congrArg Prod.fst (splitLead_blankLine n rest)⟩
    · have hnone := not_exists.1 h
      exact .inr ⟨congrArg Prod.fst (splitLead_of_not_isPrefix hnone), hnone⟩
  terminator := splitTerminator_mem _
  longest t ht h := by
    rw [content_append_spaces] at h
    refine isSuffix_splitTerminator ht ?_
    rwa [← splitTerminator_eq (splitLead body).2]
  spaces := ⟨_, takeWhile_space _⟩
  maximal n h := by
    rwa [content_append_spaces, replicate_isSuffix_iff, List.reverse_reverse] at h

namespace Cuts

variable {cut : Trimmed} {body : List Char}

theorem lead_append (h : cut.Cuts body) :
    cut.lead ++ (cut.content ++ cut.spaces ++ cut.terminator) = body := by
  rw [← h.whole_eq]
  simp only [List.append_assoc]

/-- The lead by the rules is the one that is cut off. -/
theorem splitLead_eq (h : cut.Cuts body) :
    splitLead body = (cut.lead, cut.content ++ cut.spaces ++ cut.terminator) := by
  have hbody := h.lead_append
  rcases h.lead with ⟨n, hn⟩ | ⟨hnil, hnone⟩
  · rw [← hbody, hn, splitLead_blankLine]
  · rw [hnil, List.nil_append] at hbody
    rw [splitLead_of_not_isPrefix hnone, hnil, hbody]

/-- The terminator by the rules is the one that is cut off. -/
theorem splitTerminator_eq (h : cut.Cuts body) :
    splitTerminator (cut.content ++ cut.spaces ++ cut.terminator) =
      ((cut.content ++ cut.spaces).reverse, cut.terminator) := by
  have heq := Trimmed.splitTerminator_eq (cut.content ++ cut.spaces ++ cut.terminator)
  have hend : (splitTerminator (cut.content ++ cut.spaces ++ cut.terminator)).2 =
      cut.terminator := by
    -- each of the two ends the other
    have hle := isSuffix_splitTerminator h.terminator
      (List.suffix_append (cut.content ++ cut.spaces) cut.terminator)
    have hge := h.longest _ (splitTerminator_mem _) ⟨_, heq⟩
    exact hge.eq_of_length_le hle.length_le
  rw [hend] at heq
  have hbefore := congrArg List.reverse (List.append_cancel_right heq)
  rw [List.reverse_reverse] at hbefore
  exact Prod.ext hbefore hend

/-- The spaces by the rules are the last run of spaces before the terminator. -/
theorem takeWhile_eq (h : cut.Cuts body) :
    (cut.content ++ cut.spaces).reverse.takeWhile (· = ' ') = cut.spaces := by
  obtain ⟨n, hn⟩ := h.spaces
  have hlength : cut.spaces.length = n := by rw [hn, List.length_replicate]
  have hle := h.maximal _ (replicate_isSuffix_iff.2 (Nat.le_refl _))
  have hsuffix : List.replicate n ' ' <:+ cut.content ++ cut.spaces :=
    hn ▸ List.suffix_append cut.content cut.spaces
  have hge := replicate_isSuffix_iff.1 hsuffix
  rw [takeWhile_space, Nat.le_antisymm hle (hlength ▸ hge), hlength, hn]

theorem dropWhile_eq (h : cut.Cuts body) :
    ((cut.content ++ cut.spaces).reverse.dropWhile (· = ' ')).reverse = cut.content := by
  have hwhole := reverse_dropWhile_append_takeWhile (cut.content ++ cut.spaces).reverse
  rw [h.takeWhile_eq, List.reverse_reverse] at hwhole
  exact List.append_cancel_right hwhole

/-- The rules leave no choice. -/
theorem eq_ofBody (h : cut.Cuts body) : cut = ofBody body := by
  rw [ofBody, h.splitLead_eq, h.splitTerminator_eq, h.takeWhile_eq, h.dropWhile_eq]

end Cuts

end Trimmed

end Stencil.Markup
