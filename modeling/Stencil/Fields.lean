/-!
# Named fields

A list of named fields in ascending order of the names, each name at most once. Names are ordered
by code points, which is also the order of their UTF-8 bytes.

* `Fields.insert` keeps the order and replaces the value of a name that is present
  (`Fields.sorted_insert`);
* `Fields.get?` reads what was written last (`Fields.get?_insert`);
* `Fields.without` takes away one name and no other (`Fields.get?_without`).
-/

namespace Stencil

/-- Named fields in ascending order of the names. -/
abbrev Fields (α : Type) := List (String × α)

namespace Fields

variable {α : Type}

/-- The value of a name. -/
def get? (name : String) : Fields α → Option α
  | [] => none
  | (n, v) :: fields => if n = name then some v else get? name fields

/-- The fields with the value of `name` replaced, or a new field put in its place. -/
def insert (name : String) (value : α) : Fields α → Fields α
  | [] => [(name, value)]
  | (n, v) :: fields =>
    if name = n then (name, value) :: fields
    else if name < n then (name, value) :: (n, v) :: fields
    else (n, v) :: insert name value fields

/-- The fields of a list of pairs; of two values of one name the last counts. -/
def ofList (pairs : List (String × α)) : Fields α :=
  pairs.foldl (fun fields p => insert p.1 p.2 fields) []

/-- The fields without those of a name. -/
def without (name : String) (fields : Fields α) : Fields α :=
  fields.filter fun p => p.1 ≠ name

/-- The names are in strictly ascending order. -/
def Sorted (fields : Fields α) : Prop := fields.Pairwise fun p q => p.1 < q.1

@[simp] theorem get?_nil (name : String) : get? name ([] : Fields α) = none := rfl

theorem get?_insert (name other : String) (value : α) (fields : Fields α) :
    get? other (insert name value fields) =
      if name = other then some value else get? other fields := by
  induction fields with
  | nil => rfl
  | cons p fields ih =>
    obtain ⟨n, v⟩ := p
    unfold insert
    split
    · rename_i h
      subst h
      by_cases ho : name = other <;> simp [get?, ho]
    · split
      · rfl
      · by_cases ho : n = other
        · have hn : name ≠ other := fun e => by simp_all
          simp [get?, ho, hn]
        · simp [get?, ho, ih]

theorem get?_without (name other : String) (fields : Fields α) :
    get? other (without name fields) = if name = other then none else get? other fields := by
  unfold without
  induction fields with
  | nil => simp
  | cons p fields ih =>
    obtain ⟨n, v⟩ := p
    by_cases hn : n = name
    · subst hn
      rw [List.filter_cons_of_neg (by simp), ih]
      split <;> simp_all [get?]
    · rw [List.filter_cons_of_pos (by simpa using hn)]
      by_cases ho : n = other
      · have : name ≠ other := fun e => hn (ho.trans e.symm)
        simp [get?, ho, this]
      · simpa only [get?, if_neg ho] using ih

theorem mem_insert {name : String} {value : α} {fields : Fields α} {p : String × α}
    (h : p ∈ insert name value fields) : p = (name, value) ∨ p ∈ fields := by
  induction fields with
  | nil => simpa [insert] using h
  | cons q fields ih =>
    unfold insert at h
    split at h
    · exact (List.mem_cons.1 h).imp id (List.mem_cons_of_mem _)
    · split at h
      · exact List.mem_cons.1 h
      · rcases List.mem_cons.1 h with h | h
        · exact .inr (h ▸ List.mem_cons_self)
        · exact (ih h).imp id (List.mem_cons_of_mem _)

theorem sorted_insert (name : String) (value : α) {fields : Fields α} (h : Sorted fields) :
    Sorted (insert name value fields) := by
  induction fields with
  | nil => exact List.pairwise_singleton _ _
  | cons q fields ih =>
    obtain ⟨n, v⟩ := q
    obtain ⟨hq, hs⟩ := List.pairwise_cons.1 h
    unfold insert
    split
    · rename_i he
      exact List.pairwise_cons.2 ⟨fun p hp => he ▸ hq p hp, hs⟩
    · rename_i hne
      split
      · rename_i hlt
        refine List.pairwise_cons.2 ⟨fun p hp => ?_, h⟩
        rcases List.mem_cons.1 hp with rfl | hp
        · exact hlt
        · exact String.lt_trans hlt (hq p hp)
      · rename_i hge
        refine List.pairwise_cons.2 ⟨fun p hp => ?_, ih hs⟩
        rcases mem_insert hp with rfl | hp
        · exact String.not_le.1 fun hle =>
            hne (String.le_antisymm hle (String.not_lt.1 hge))
        · exact hq p hp

end Fields

end Stencil
