/-!
# Integers of 64 bits

An unbounded integer is one of 64 bits exactly if it lies between the least and the greatest of
these (`int64?_eq_some_iff`). An integer of 64 bits that no float holds is rounded to the nearest
one (`floatOfInt64`).
-/

namespace Stencil

/-- The integer of 64 bits with this value, if there is one. -/
def int64? (n : Int) : Option Int64 :=
  if Int64.minValue.toInt ≤ n ∧ n ≤ Int64.maxValue.toInt then some (Int64.ofInt n) else none

/-- The float nearest to an integer of 64 bits. -/
def floatOfInt64 (n : Int64) : Float := Float.ofInt n.toInt

theorem int64?_eq_some_iff {n : Int} {i : Int64} : int64? n = some i ↔ i.toInt = n := by
  unfold int64?
  constructor
  · intro h
    split at h
    · rename_i hn
      cases h
      refine Int64.toInt_ofInt_of_le ?_ ?_
      · have := hn.1
        rwa [Int64.toInt_minValue] at this
      · have := hn.2
        rw [Int64.toInt_maxValue] at this
        omega
    · cases h
  · rintro rfl
    rw [if_pos, Int64.ofInt_toInt]
    refine ⟨?_, ?_⟩
    · rw [Int64.toInt_minValue]
      exact Int64.le_toInt i
    · rw [Int64.toInt_maxValue]
      have := Int64.toInt_lt i
      omega

end Stencil
