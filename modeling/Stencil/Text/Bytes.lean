/-!
# Places in a text as byte offsets

A text is a list of characters; a place in it is the number of UTF-8 bytes before it.

* `utf8Length` is the length of a text in bytes (`utf8Length_toList`);
* `takeBytes` and `dropBytes` split a text at a byte offset (`takeBytes_append_dropBytes`); an
  offset past the end is the end;
* `slice` is the part of a text between two byte offsets (`slice_append`);
* `window` is the same for offsets of any kind: characters that are not between them as a whole are
  left out, so that the part is never longer than the range (`utf8Length_window_le`).
-/

namespace Stencil.Text

/-- The number of bytes of a text in UTF-8. -/
def utf8Length : List Char → Nat
  | [] => 0
  | c :: cs => c.utf8Size + utf8Length cs

/-- The first `n` bytes of a text. -/
def takeBytes : Nat → List Char → List Char
  | _, [] => []
  | n, c :: cs => if n = 0 then [] else c :: takeBytes (n - c.utf8Size) cs

/-- The text without its first `n` bytes. -/
def dropBytes : Nat → List Char → List Char
  | _, [] => []
  | n, c :: cs => if n = 0 then c :: cs else dropBytes (n - c.utf8Size) cs

/-- The text from the byte offset `start` up to the byte offset `stop`. -/
def slice (start stop : Nat) (cs : List Char) : List Char :=
  takeBytes (stop - start) (dropBytes start cs)

@[simp] theorem utf8Length_nil : utf8Length [] = 0 := rfl

@[simp] theorem utf8Length_cons (c : Char) (cs : List Char) :
    utf8Length (c :: cs) = c.utf8Size + utf8Length cs := rfl

@[simp] theorem utf8Length_append (cs ds : List Char) :
    utf8Length (cs ++ ds) = utf8Length cs + utf8Length ds := by
  induction cs with
  | nil => simp
  | cons c cs ih => simp [ih, Nat.add_assoc]

theorem utf8Length_pos {cs : List Char} (h : cs ≠ []) : 0 < utf8Length cs := by
  obtain ⟨c, ds, rfl⟩ := List.exists_cons_of_ne_nil h
  have := c.utf8Size_pos
  rw [utf8Length_cons]
  omega

/-- The length is the number of bytes that a string of these characters takes. -/
theorem utf8Length_toList (s : String) : utf8Length s.toList = s.utf8ByteSize := by
  have h : ∀ cs : List Char, utf8Length cs = (String.ofList cs).utf8ByteSize := by
    intro cs
    induction cs with
    | nil => simp
    | cons c cs ih =>
      rw [utf8Length_cons, ih, ← List.singleton_append, String.ofList_append,
        String.utf8ByteSize_append, ← String.singleton_eq_ofList, String.utf8ByteSize_singleton]
  rw [h, String.ofList_toList]

@[simp] theorem takeBytes_zero (cs : List Char) : takeBytes 0 cs = [] := by
  cases cs <;> rfl

@[simp] theorem dropBytes_zero (cs : List Char) : dropBytes 0 cs = cs := by
  cases cs <;> rfl

theorem takeBytes_utf8Length (cs ds : List Char) : takeBytes (utf8Length cs) (cs ++ ds) = cs := by
  induction cs with
  | nil => simp
  | cons c cs ih =>
    have := c.utf8Size_pos
    rw [List.cons_append, utf8Length_cons, takeBytes, if_neg (by omega), Nat.add_sub_cancel_left,
      ih]

theorem dropBytes_utf8Length (cs ds : List Char) : dropBytes (utf8Length cs) (cs ++ ds) = ds := by
  induction cs with
  | nil => simp
  | cons c cs ih =>
    have := c.utf8Size_pos
    rw [List.cons_append, utf8Length_cons, dropBytes, if_neg (by omega), Nat.add_sub_cancel_left,
      ih]

/-- The part of a text between the lengths of what stands before its begin and before its end. -/
theorem slice_append (as bs cs : List Char) :
    slice (utf8Length as) (utf8Length (as ++ bs)) (as ++ bs ++ cs) = bs := by
  rw [slice, List.append_assoc, dropBytes_utf8Length, utf8Length_append, Nat.add_sub_cancel_left,
    takeBytes_utf8Length]

/-- The characters of a text that end within its first `n` bytes. -/
def fitBytes : Nat → List Char → List Char
  | _, [] => []
  | n, c :: cs => if c.utf8Size ≤ n then c :: fitBytes (n - c.utf8Size) cs else []

/-- The characters of a text from the byte offset `start` that end before the byte offset `stop`. -/
def window (start stop : Nat) (cs : List Char) : List Char :=
  fitBytes (stop - start) (dropBytes start cs)

theorem utf8Length_fitBytes_le (n : Nat) (cs : List Char) : utf8Length (fitBytes n cs) ≤ n := by
  induction cs generalizing n with
  | nil => exact Nat.zero_le _
  | cons c cs ih =>
    rw [fitBytes]
    split
    · have := ih (n - c.utf8Size)
      rw [utf8Length_cons]
      omega
    · exact Nat.zero_le _

theorem utf8Length_window_le (start stop : Nat) (cs : List Char) :
    utf8Length (window start stop cs) ≤ stop - start :=
  utf8Length_fitBytes_le _ _

theorem fitBytes_utf8Length (cs ds : List Char) : fitBytes (utf8Length cs) (cs ++ ds) = cs := by
  induction cs with
  | nil =>
    cases ds with
    | nil => rfl
    | cons d ds =>
      have := d.utf8Size_pos
      rw [List.nil_append, fitBytes, if_neg (by rw [utf8Length_nil]; omega)]
  | cons c cs ih =>
    rw [List.cons_append, utf8Length_cons, fitBytes, if_pos (Nat.le_add_right _ _),
      Nat.add_sub_cancel_left, ih]

theorem window_append (as bs cs : List Char) :
    window (utf8Length as) (utf8Length (as ++ bs)) (as ++ bs ++ cs) = bs := by
  rw [window, List.append_assoc, dropBytes_utf8Length, utf8Length_append, Nat.add_sub_cancel_left,
    fitBytes_utf8Length]

theorem takeBytes_append_dropBytes (n : Nat) (cs : List Char) :
    takeBytes n cs ++ dropBytes n cs = cs := by
  induction cs generalizing n with
  | nil => rfl
  | cons c cs ih => by_cases h : n = 0 <;> simp [takeBytes, dropBytes, h, ih]

/-- Of two texts that a text begins with, the one of fewer bytes begins the other one. -/
theorem isPrefix_of_utf8Length_le {x y cs : List Char} (hx : x <+: cs) (hy : y <+: cs)
    (hle : utf8Length x ≤ utf8Length y) : x <+: y := by
  obtain h | ⟨z, rfl⟩ := List.prefix_or_prefix_of_prefix hx hy
  · exact h
  · -- the longer prefix does not end later
    cases z with
    | nil => simp
    | cons c z =>
      have := utf8Length_pos (List.cons_ne_nil c z)
      rw [utf8Length_append] at hle
      omega

end Stencil.Text
