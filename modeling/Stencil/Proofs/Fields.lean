import Mathlib.Data.List.Forall2
import Stencil.Fields

/-!
# Fields out of order

Fields are in ascending order of their names. The fields that a list of pairs makes have the last
value of each name (`get?_ofList`). A list of pairs in any other order, each name at most once,
makes the same fields (`ofList_of_perm`): a look-up does not depend on the order
(`get?_eq_of_perm`), and fields that give the same values are the same (`Sorted.ext`). Two lists of
fields have the same names and related values in order if and only if look-ups in them are related
(`forall₂_iff_get?`).
-/

namespace Stencil.Fields

variable {α : Type} {fields fields' : Fields α} {pairs : List (String × α)}

theorem Sorted.nodup_names (h : Sorted fields) : (fields.map (·.1)).Nodup := by
  refine List.pairwise_map.2 (h.imp fun {p q} hlt he => ?_)
  rw [he] at hlt
  exact String.lt_irrefl _ hlt

theorem nodup_of_names (h : (pairs.map (·.1)).Nodup) : pairs.Nodup :=
  (List.pairwise_map.1 h).imp fun hne he => hne (congrArg (·.1) he)

theorem get?_eq_some_iff (h : (pairs.map (·.1)).Nodup) {name : String} {value : α} :
    get? name pairs = some value ↔ (name, value) ∈ pairs := by
  induction pairs with
  | nil => simp
  | cons p pairs ih =>
    obtain ⟨n, v⟩ := p
    obtain ⟨hn, hp⟩ := List.nodup_cons.1 h
    rw [get?, List.mem_cons, Prod.mk.injEq]
    split
    · rename_i he
      subst he
      rw [Option.some.injEq]
      refine ⟨fun hv => .inl ⟨rfl, hv.symm⟩, ?_⟩
      rintro (⟨-, rfl⟩ | hm)
      · rfl
      · exact absurd (List.mem_map_of_mem hm) hn
    · rename_i hne
      rw [ih hp]
      exact ⟨.inr, fun hm => hm.resolve_left fun he => hne he.1.symm⟩

theorem get?_eq_none_of_not_mem {name : String} (h : name ∉ pairs.map (·.1)) :
    get? name pairs = none := by
  induction pairs with
  | nil => rfl
  | cons p pairs ih =>
    rw [List.map_cons, List.mem_cons, not_or] at h
    rw [get?, if_neg (Ne.symm h.1), ih h.2]

theorem get?_eq_of_perm (h : (fields.map (·.1)).Nodup) (hp : pairs.Perm fields) (name : String) :
    get? name pairs = get? name fields := by
  have h' : (pairs.map (·.1)).Nodup := (hp.map _).nodup_iff.2 h
  apply Option.ext
  intro value
  rw [get?_eq_some_iff h, get?_eq_some_iff h', hp.mem_iff]

/-- Two lists of fields in ascending order that give the same values are the same. -/
theorem Sorted.ext (h : Sorted fields) (h' : Sorted fields')
    (he : ∀ name, get? name fields = get? name fields') : fields = fields' := by
  have hm : ∀ p, p ∈ fields ↔ p ∈ fields' := fun ⟨name, value⟩ => by
    rw [← get?_eq_some_iff h.nodup_names, ← get?_eq_some_iff h'.nodup_names, he]
  have hp : fields.Perm fields' :=
    (List.perm_ext_iff_of_nodup (nodup_of_names h.nodup_names)
      (nodup_of_names h'.nodup_names)).2 hm
  exact hp.eq_of_pairwise
    (fun p q _ _ hpq hqp => absurd (String.lt_trans hpq hqp) (String.lt_irrefl _)) h h'

theorem get?_eq_none_of_lt {name : String} (h : ∀ p ∈ fields, name < p.1) :
    get? name fields = none := by
  refine get?_eq_none_of_not_mem fun hm => ?_
  obtain ⟨p, hp, rfl⟩ := List.mem_map.1 hm
  exact String.lt_irrefl _ (h p hp)

/-- What comes before the first name is no name. -/
theorem Sorted.get?_eq_none {p : String × α} (h : Sorted (p :: fields)) {name : String}
    (hlt : name < p.1) : get? name (p :: fields) = none :=
  get?_eq_none_of_lt <| List.forall_mem_cons.2
    ⟨hlt, fun q hq => String.lt_trans hlt ((List.pairwise_cons.1 h).1 q hq)⟩

/-- Values of fields in ascending order are related in order exactly if they are related under each
name. -/
theorem forall₂_iff_get? {R : α → α → Prop} (h : Sorted fields) (h' : Sorted fields') :
    List.Forall₂ (fun p q => p.1 = q.1 ∧ R p.2 q.2) fields fields' ↔
      ∀ name, Option.Rel R (get? name fields) (get? name fields') := by
  constructor
  · intro hall name
    induction hall with
    | nil => exact .none
    | @cons p q fields fields' hpq _ ih =>
      obtain ⟨hname, hvalue⟩ := hpq
      rw [get?, get?, hname]
      split
      · exact .some hvalue
      · exact ih (List.pairwise_cons.1 h).2 (List.pairwise_cons.1 h').2
  · intro hrel
    induction fields generalizing fields' with
    | nil =>
      cases fields' with
      | nil => exact .nil
      | cons q fields' =>
        have hq := hrel q.1
        rw [get?_nil, get?, if_pos rfl] at hq
        cases hq
    | cons p fields ih =>
      cases fields' with
      | nil =>
        have hp := hrel p.1
        rw [get?_nil, get?, if_pos rfl] at hp
        cases hp
      | cons q fields' =>
        -- the lesser one of the two first names would be a name of one list only
        have hname : p.1 = q.1 := by
          refine String.le_antisymm (String.not_lt.1 fun hlt => ?_) (String.not_lt.1 fun hlt => ?_)
          · have hq := hrel q.1
            rw [h.get?_eq_none hlt, get?, if_pos rfl] at hq
            cases hq
          · have hp := hrel p.1
            rw [h'.get?_eq_none hlt, get?, if_pos rfl] at hp
            cases hp
        have hp := hrel p.1
        rw [get?, get?, if_pos rfl, if_pos hname.symm] at hp
        obtain ⟨hfirst, hs⟩ := List.pairwise_cons.1 h
        obtain ⟨hfirst', hs'⟩ := List.pairwise_cons.1 h'
        refine .cons ⟨hname, by cases hp; assumption⟩ (ih hs hs' fun name => ?_)
        by_cases hn : name = p.1
        · subst hn
          rw [get?_eq_none_of_lt hfirst, get?_eq_none_of_lt (hname ▸ hfirst')]
          exact .none
        · have hrest := hrel name
          rwa [get?, get?, if_neg (Ne.symm hn), if_neg (hname ▸ Ne.symm hn)] at hrest

theorem sorted_foldl_insert (pairs : List (String × α)) (h : Sorted fields) :
    Sorted (pairs.foldl (fun fields p => insert p.1 p.2 fields) fields) := by
  induction pairs generalizing fields with
  | nil => exact h
  | cons p pairs ih => exact ih (sorted_insert _ _ h)

theorem sorted_ofList (pairs : List (String × α)) : Sorted (ofList pairs) :=
  sorted_foldl_insert pairs List.Pairwise.nil

theorem get?_append (name : String) (xs ys : List (String × α)) :
    get? name (xs ++ ys) = (get? name xs).or (get? name ys) := by
  induction xs with
  | nil => rfl
  | cons p xs ih =>
    rw [List.cons_append, get?, get?, ih]
    split <;> rfl

theorem get?_foldl_insert (pairs : List (String × α)) (fields : Fields α) (name : String) :
    get? name (pairs.foldl (fun fields p => insert p.1 p.2 fields) fields) =
      (get? name pairs.reverse).or (get? name fields) := by
  induction pairs generalizing fields with
  | nil => rfl
  | cons p pairs ih =>
    rw [List.foldl_cons, ih, List.reverse_cons, get?_append, get?_insert, Option.or_assoc]
    congr 1
    rw [get?]
    split <;> rfl

/-- Of the pairs of one name the last one counts, which is the first one from behind. -/
theorem get?_ofList (pairs : List (String × α)) (name : String) :
    get? name (ofList pairs) = get? name pairs.reverse := by
  rw [ofList, get?_foldl_insert, get?_nil, Option.or_none]

theorem ofList_of_perm (h : Sorted fields) (hp : pairs.Perm fields) : ofList pairs = fields := by
  apply (sorted_ofList pairs).ext h
  intro name
  rw [get?_ofList, get?_eq_of_perm h.nodup_names ((List.reverse_perm pairs).trans hp)]

end Stencil.Fields
