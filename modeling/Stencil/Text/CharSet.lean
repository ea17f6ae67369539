/-!
# Sets of characters given by code point ranges

A character property is a list of inclusive ranges in ascending order (`Ascending`). `inRanges`
searches such a list and stops at the first range that begins after the code point. Nothing is
missed by that (`inRanges_iff`).
-/

namespace Stencil.Text

/-- Whether `n` lies in one of the ascending inclusive ranges. -/
def inRanges (n : Nat) : List (Nat × Nat) → Bool
  | [] => false
  | (first, last) :: ranges =>
    if n < first then false else n ≤ last || inRanges n ranges

/-- Each range is non-empty, and the next one begins after its end. -/
def Ascending : List (Nat × Nat) → Prop
  | [] => True
  | [(first, last)] => first ≤ last
  | (first, last) :: (first', last') :: ranges =>
    first ≤ last ∧ last < first' ∧ Ascending ((first', last') :: ranges)

instance decidableAscending : DecidablePred Ascending
  | [] => inferInstanceAs (Decidable True)
  | [(first, last)] => inferInstanceAs (Decidable (first ≤ last))
  | (first, last) :: (first', last') :: ranges =>
    have := decidableAscending ((first', last') :: ranges)
    inferInstanceAs (Decidable (first ≤ last ∧ last < first' ∧
      Ascending ((first', last') :: ranges)))

namespace Ascending

variable {r : Nat × Nat} {ranges : List (Nat × Nat)}

theorem head (h : Ascending (r :: ranges)) : r.1 ≤ r.2 := by
  cases ranges with
  | nil => exact h
  | cons => exact h.1

theorem tail (h : Ascending (r :: ranges)) : Ascending ranges := by
  cases ranges with
  | nil => trivial
  | cons => exact h.2.2

/-- All later ranges begin after the end of the first one. -/
theorem lt_of_mem (h : Ascending (r :: ranges)) : ∀ r' ∈ ranges, r.2 < r'.1 := by
  induction ranges generalizing r with
  | nil => nofun
  | cons next ranges ih =>
    obtain ⟨-, hnext, hranges⟩ := h
    intro r' hr'
    rcases List.mem_cons.1 hr' with rfl | hr'
    · exact hnext
    · have := hranges.head
      have := ih hranges r' hr'
      omega

end Ascending

/-- The search that stops early finds what is in the ranges. -/
theorem inRanges_iff {n : Nat} {ranges : List (Nat × Nat)} (h : Ascending ranges) :
    inRanges n ranges = true ↔ ∃ r ∈ ranges, r.1 ≤ n ∧ n ≤ r.2 := by
  induction ranges with
  | nil => simp [inRanges]
  | cons r ranges ih =>
    simp only [inRanges, List.mem_cons, or_and_right, exists_or, exists_eq_left]
    split
    · rename_i hn
      -- the later ranges begin even further behind
      have hlater : ¬ ∃ r' ∈ ranges, r'.1 ≤ n ∧ n ≤ r'.2 := by
        rintro ⟨r', hr', hfirst, -⟩
        have := h.head
        have := h.lt_of_mem r' hr'
        omega
      simp only [Bool.false_eq_true, hlater, or_false, false_iff, not_and]
      omega
    · rename_i hn
      rw [Bool.or_eq_true, decide_eq_true_iff, ih h.tail]
      simp only [Nat.le_of_not_lt hn, true_and]

end Stencil.Text
