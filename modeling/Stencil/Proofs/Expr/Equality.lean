import Mathlib.Data.List.Forall2
import Stencil.Expr.Operator
import Stencil.Proofs.Fields

/-!
# Equality inside of arrays and objects

`==` compares an integer and a float as numbers, but only if they are its operands. What stands
inside of arrays and objects is compared by `Value.same`, which holds of equal values of one type
(`Value.same_iff`). So two arrays are equal if their items are equal in pairs and of the same types
in pairs, and two objects if the same is true of their values under each name
(`Value.equals_inside`).

Values that are equal by themselves stay equal in the same surroundings, however deep these are,
unless they are an integer and a float.
-/

namespace Stencil.Value

/-- The operator `==` says that two values are equal. -/
def Equals (a b : Value) : Prop := BinaryOp.eq.apply a b = .ok (.bool true)

section

variable {a b : Value} {as bs : List Value}

theorem equals_iff : Equals a b ↔ BinaryOp.equal a b = true := by
  simp [Equals, BinaryOp.apply]

instance (a b : Value) : Decidable (Equals a b) := decidable_of_iff' _ equals_iff

/-! ## Structural equality -/

theorem type_of_same (h : same a b = true) : a.type = b.type := by
  unfold same at h
  split at h <;> first | rfl | cases h

/-- Of values of one type both equalities are the same. -/
theorem equals_of_type (h : a.type = b.type) : Equals a b ↔ same a b = true := by
  rw [equals_iff]
  unfold BinaryOp.equal
  split
  · cases h
  · cases h
  · rfl

theorem same_iff : same a b = true ↔ Equals a b ∧ a.type = b.type := by
  constructor
  · intro h
    have htype := type_of_same h
    exact ⟨(equals_of_type htype).2 h, htype⟩
  · rintro ⟨h, htype⟩
    exact (equals_of_type htype).1 h

/-- Equal values are of one type, or they are an integer and a float. -/
theorem Equals.type_eq_or (h : Equals a b) :
    a.type = b.type ∨ (∃ n x, a = .int n ∧ b = .float x) ∨ ∃ x n, a = .float x ∧ b = .int n := by
  rw [equals_iff] at h
  unfold BinaryOp.equal at h
  split at h
  · exact .inr (.inl ⟨_, _, rfl, rfl⟩)
  · exact .inr (.inr ⟨_, _, rfl, rfl⟩)
  · exact .inl (type_of_same h)

/-! ## Arrays and objects -/

theorem sameItems_iff :
    sameItems as bs = true ↔ List.Forall₂ (fun a b => same a b = true) as bs := by
  induction as generalizing bs with
  | nil => cases bs <;> simp [sameItems]
  | cons a as ih => cases bs <;> simp [sameItems, ih]

theorem sameFields_iff {as bs : List (String × Value)} :
    sameFields as bs = true ↔
      List.Forall₂ (fun p q => p.1 = q.1 ∧ same p.2 q.2 = true) as bs := by
  induction as generalizing bs with
  | nil => cases bs <;> simp [sameFields]
  | cons p as ih => cases bs <;> simp [sameFields, ih]

theorem equals_array_iff :
    Equals (.array as) (.array bs) ↔
      List.Forall₂ (fun a b => Equals a b ∧ a.type = b.type) as bs := by
  have htype : (array as).type = (array bs).type := rfl
  rw [equals_of_type htype, same, sameItems_iff]
  simp only [same_iff]

theorem equals_object_iff {as bs : Fields Value} (ha : as.Sorted) (hb : bs.Sorted) :
    Equals (.object as) (.object bs) ↔
      ∀ name, Option.Rel (fun a b => Equals a b ∧ a.type = b.type)
        (Fields.get? name as) (Fields.get? name bs) := by
  have htype : (object as).type = (object bs).type := rfl
  rw [equals_of_type htype, same, sameFields_iff]
  simp only [same_iff]
  exact Fields.forall₂_iff_get? (R := fun a b => Equals a b ∧ a.type = b.type) ha hb

end

/-! ## Surroundings -/

/-- A place inside of an array or an object, with what stands before and after it. -/
inductive Slot where
  | item (before after : List Value)
  | field (before : Fields Value) (name : String) (after : Fields Value)

namespace Slot

/-- The array or object with a value in this place. -/
def fill : Slot → Value → Value
  | item before after, v => .array (before ++ v :: after)
  | field before name after, v => .object (before ++ (name, v) :: after)

/-- Everything around the place equals itself. A NaN does not. -/
def Settled : Slot → Prop
  | item before after => ∀ v ∈ before ++ after, Equals v v
  | field before _ after => ∀ p ∈ before ++ after, Equals p.2 p.2

instance : (slot : Slot) → Decidable slot.Settled
  | item _ _ => inferInstanceAs (Decidable (∀ _ ∈ _, _))
  | field _ _ _ => inferInstanceAs (Decidable (∀ _ ∈ _, _))

theorem type_fill (slot : Slot) (a b : Value) : (slot.fill a).type = (slot.fill b).type := by
  cases slot <;> rfl

/-- Lists that differ in one place only are related if their elements in this place are. -/
theorem forall₂_fill {α : Type} {R : α → α → Prop} {before after : List α} {x y : α}
    (h : ∀ z ∈ before ++ after, R z z) :
    List.Forall₂ R (before ++ x :: after) (before ++ y :: after) ↔ R x y := by
  induction before with
  | nil =>
    rw [List.nil_append] at h
    rw [List.nil_append, List.nil_append, List.forall₂_cons, List.forall₂_same, and_iff_left h]
  | cons z before ih =>
    obtain ⟨hz, hrest⟩ := List.forall_mem_cons.1 h
    rw [List.cons_append, List.cons_append, List.forall₂_cons, ih hrest, and_iff_right hz]

variable {a b : Value}

/-- In settled surroundings structural equality is that of the two values. -/
theorem same_fill {slot : Slot} (h : slot.Settled) :
    same (slot.fill a) (slot.fill b) = true ↔ same a b = true := by
  cases slot with
  | item before after =>
    rw [fill, fill, same, sameItems_iff, forall₂_fill]
    exact fun v hv => same_iff.2 ⟨h v hv, rfl⟩
  | field before name after =>
    rw [fill, fill, same, sameFields_iff, forall₂_fill, and_iff_right rfl]
    exact fun p hp => ⟨rfl, same_iff.2 ⟨h p hp, rfl⟩⟩

end Slot

/-- A value in places inside of each other, the innermost one first. -/
def fillAll (slots : List Slot) (v : Value) : Value := slots.foldl (fun v slot => slot.fill v) v

section

variable {a b : Value} {slots : List Slot}

theorem same_fillAll (h : ∀ slot ∈ slots, slot.Settled) :
    same (fillAll slots a) (fillAll slots b) = true ↔ same a b = true := by
  induction slots generalizing a b with
  | nil => rfl
  | cons slot slots ih =>
    obtain ⟨hslot, hslots⟩ := List.forall_mem_cons.1 h
    exact (ih hslots).trans (Slot.same_fill hslot)

theorem type_fillAll (hne : slots ≠ []) : (fillAll slots a).type = (fillAll slots b).type := by
  obtain ⟨slots, slot, rfl⟩ := List.eq_nil_or_concat slots |>.resolve_left hne
  simp only [fillAll, List.concat_eq_append, List.foldl_append, List.foldl_cons, List.foldl_nil]
  exact slot.type_fill _ _

/-- In settled surroundings two values are equal if they are equal by themselves and of one type. -/
theorem equals_fillAll (hne : slots ≠ []) (h : ∀ slot ∈ slots, slot.Settled) :
    Equals (fillAll slots a) (fillAll slots b) ↔ Equals a b ∧ a.type = b.type := by
  rw [equals_of_type (type_fillAll hne), same_fillAll h, same_iff]

end

/-! ## What `==` asks of the values inside -/

/-- What is the same as a stronger condition is the same as the weaker one only where this one
implies the stronger one. -/
theorem iff_iff_imp {p q r : Prop} (h : p ↔ r) (hr : r → q) : (p ↔ q) ↔ (q → r) := by
  rw [h]
  exact ⟨Iff.mpr, fun hq => ⟨hr, hq⟩⟩

theorem rel_imp {α : Type} {R S : α → α → Prop} (h : ∀ a b, R a b → S a b) {a b : Option α}
    (hr : Option.Rel R a b) : Option.Rel S a b := by
  cases hr with
  | some hr => exact .some (h _ _ hr)
  | none => exact .none

/-- Two arrays are equal if they have the same length and their items are equal and of one type in
pairs. Two objects are equal if they have the same names and their values under each name are equal
and of one type. Two values in the same surroundings, at any depth, are equal there if they are
equal by themselves and of one type.

So equality of the items, of the values or of the two values is all that is asked only where it
implies that they are of one type. It does so unless they are an integer and a float. -/
theorem equals_inside (as bs : List Value) (ps qs : Fields Value) (slots : List Slot)
    (a b : Value) :
    ((Equals (.array as) (.array bs) ↔
        List.Forall₂ (fun a b => Equals a b ∧ a.type = b.type) as bs) ∧
      ((Equals (.array as) (.array bs) ↔ List.Forall₂ Equals as bs) ↔
        (List.Forall₂ Equals as bs →
          List.Forall₂ (fun a b => Equals a b ∧ a.type = b.type) as bs))) ∧
    (ps.Sorted → qs.Sorted →
      (Equals (.object ps) (.object qs) ↔ ∀ name,
        Option.Rel (fun a b => Equals a b ∧ a.type = b.type)
          (Fields.get? name ps) (Fields.get? name qs)) ∧
      ((Equals (.object ps) (.object qs) ↔ ∀ name,
          Option.Rel Equals (Fields.get? name ps) (Fields.get? name qs)) ↔
        ((∀ name, Option.Rel Equals (Fields.get? name ps) (Fields.get? name qs)) →
          ∀ name, Option.Rel (fun a b => Equals a b ∧ a.type = b.type)
            (Fields.get? name ps) (Fields.get? name qs)))) ∧
    (slots ≠ [] → (∀ slot ∈ slots, slot.Settled) →
      (Equals (fillAll slots a) (fillAll slots b) ↔ Equals a b ∧ a.type = b.type) ∧
      ((Equals (fillAll slots a) (fillAll slots b) ↔ Equals a b) ↔
        (Equals a b → Equals a b ∧ a.type = b.type))) ∧
    (Equals a b → a.type = b.type ∨
      (∃ n x, a = .int n ∧ b = .float x) ∨ ∃ x n, a = .float x ∧ b = .int n) := by
  refine ⟨⟨equals_array_iff, iff_iff_imp equals_array_iff fun h => h.imp fun _ _ h => h.1⟩,
    fun hp hq => ?_, fun hne h => ?_, Equals.type_eq_or⟩
  · have hobject := equals_object_iff hp hq
    exact ⟨hobject, iff_iff_imp hobject fun h name => rel_imp (fun _ _ h => h.1) (h name)⟩
  · have hfill := equals_fillAll (a := a) (b := b) hne h
    exact ⟨hfill, iff_iff_imp hfill And.left⟩

/-- An array in an object, with a place in it. -/
def basket : List Slot := [.item [.str "a"] [.float 0.5], .field [] "items" [("total", .int 2)]]

/-- An object with two fields, which contains an array. -/
def basketFields (v : Value) : Fields Value :=
  [("items", .array [.str "a", v, .float 0.5]), ("total", .int 2)]

/-- Inside of an array in an object an integer equals itself, but not the float of the same
number. -/
theorem equals_inside_basket :
    (basketFields (.int 1)).Sorted ∧ (basketFields (.float 1.0)).Sorted ∧ basket ≠ [] ∧
      (∀ slot ∈ basket, slot.Settled) ∧
      Equals (.object (basketFields (.int 1))) (.object (basketFields (.int 1))) ∧
      Equals (.int 1) (.float 1.0) ∧
      ¬ Equals (fillAll basket (.int 1)) (fillAll basket (.float 1.0)) := by
  have hsorted (v : Value) : (basketFields v).Sorted := by
    refine List.pairwise_cons.2 ⟨?_, List.pairwise_singleton _ _⟩
    exact List.forall_mem_singleton.2 (show "items" < "total" by decide)
  have hsettled : ∀ slot ∈ basket, slot.Settled := by decide +kernel
  obtain ⟨-, hobject, -⟩ := equals_inside [] [] (basketFields (.int 1)) (basketFields (.int 1))
    [] (.int 1) (.int 1)
  obtain ⟨-, -, hfill, -⟩ := equals_inside [] [] [] [] basket (.int 1) (.float 1.0)
  refine ⟨hsorted _, hsorted _, List.cons_ne_nil _ _, hsettled, ?_, by decide +kernel, ?_⟩
  · refine (hobject (hsorted _) (hsorted _)).1.2 fun name => ?_
    rw [basketFields, Fields.get?, Fields.get?, Fields.get?_nil]
    split
    · exact .some ⟨by decide +kernel, rfl⟩
    · split
      · exact .some ⟨by decide +kernel, rfl⟩
      · exact .none
  · rw [(hfill (List.cons_ne_nil _ _) hsettled).1]
    rintro ⟨-, htype⟩
    cases htype

/-- An integer and a float of the same number are equal, but arrays and objects that contain them
are not, although their items are equal in pairs. -/
theorem not_equals_mixed :
    Equals (.int 1) (.float 1.0) ∧
      List.Forall₂ Equals [.int 1] [.float 1.0] ∧
      ¬ Equals (.array [.int 1]) (.array [.float 1.0]) ∧
      (∀ name, Option.Rel Equals (Fields.get? name [("n", .int 1)])
        (Fields.get? name [("n", .float 1.0)])) ∧
      ¬ Equals (.object [("n", .int 1)]) (.object [("n", .float 1.0)]) := by
  have hequals : Equals (.int 1) (.float 1.0) := by decide +kernel
  refine ⟨hequals, .cons hequals .nil, by decide +kernel, fun name => ?_, by decide +kernel⟩
  by_cases hname : "n" = name
  · simp only [Fields.get?, if_pos hname]
    exact .some hequals
  · simp only [Fields.get?, if_neg hname]
    exact .none

end Stencil.Value
