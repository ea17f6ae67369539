import Stencil.Text.Bytes

/-!
# Reading a text by its bytes

What walks over a text byte by byte sees the bytes of its characters in UTF-8, and may cut the text
between two characters only.

* `peek` is the byte at an offset. It is seen as the character with its number: an ASCII character
  is its only byte, and every other character begins with a byte that is no ASCII character
  (`lead_eq_self`, `le_lead`). So classes of ASCII characters tell characters by their first bytes
  (`AsciiOnly.lead`).
* `runEnd` is the end of the bytes of a class from an offset on; for a class of ASCII characters it
  is the end of the characters of the class (`AsciiOnly.runEnd_eq`).
* `slice?` is the part of a text between two byte offsets, if these are in order and at boundaries
  of characters; everything else is a slice that cannot be taken.
-/

namespace Stencil.Text

/-- The bytes of a text in UTF-8. -/
def utf8Bytes (cs : List Char) : List UInt8 := cs.flatMap String.utf8EncodeChar

/-- The byte at an offset, as the character with its number. -/
def peek (source : List Char) (pos : Nat) : Option Char :=
  (utf8Bytes source)[pos]?.map fun b => Char.ofNat b.toNat

theorem lt_of_peek_eq_some {source : List Char} {pos : Nat} {c : Char}
    (h : peek source pos = some c) : pos < (utf8Bytes source).length := by
  obtain ⟨b, hb, -⟩ := Option.map_eq_some_iff.1 h
  exact (List.getElem?_eq_some_iff.1 hb).1

/-- The end of the bytes of a class that stand from `pos` on. -/
def runEnd (p : Char → Bool) (source : List Char) (pos : Nat) : Nat :=
  match h : peek source pos with
  | none => pos
  | some c =>
    have := lt_of_peek_eq_some h
    if p c then runEnd p source (pos + 1) else pos
termination_by (utf8Bytes source).length - pos

/-- Whether a character begins at a byte offset, or the text ends there. -/
def isBoundary : Nat → List Char → Bool
  | 0, _ => true
  | _ + 1, [] => false
  | n + 1, c :: cs => c.utf8Size ≤ n + 1 && isBoundary (n + 1 - c.utf8Size) cs

/-- The text between two byte offsets, if they are in order and at boundaries of characters. -/
def slice? (start stop : Nat) (cs : List Char) : Option (List Char) :=
  if start ≤ stop && isBoundary start cs && isBoundary stop cs then some (slice start stop cs)
  else none

/-! ## Bytes and characters -/

@[simp] theorem utf8Bytes_append (cs ds : List Char) :
    utf8Bytes (cs ++ ds) = utf8Bytes cs ++ utf8Bytes ds :=
  List.flatMap_append

theorem length_utf8Bytes (cs : List Char) : (utf8Bytes cs).length = utf8Length cs := by
  induction cs with
  | nil => rfl
  | cons c cs ih =>
    rw [utf8Bytes, List.flatMap_cons, List.length_append, String.length_utf8EncodeChar,
      utf8Length_cons]
    exact congrArg (c.utf8Size + ·) ih

/-- The first byte of a character, as the character with its number. -/
def lead (c : Char) : Char := Char.ofNat ((String.utf8EncodeChar c).headD 0).toNat

theorem lead_eq_self {c : Char} (h : c.toNat < 128) : lead c = c := by
  have hv : c.val.toNat ≤ 127 := Nat.le_of_lt_succ h
  have hb : (UInt8.ofNat c.val.toNat).toNat = c.toNat := by
    rw [UInt8.toNat_ofNat', Nat.mod_eq_of_lt (by omega)]
    rfl
  rw [lead, String.utf8EncodeChar, if_pos hv, List.headD_cons, hb, Char.ofNat_toNat]

theorem le_toNat_ofNat {b : UInt8} (h : 128 ≤ b.toNat) : 128 ≤ (Char.ofNat b.toNat).toNat := by
  have hlt := b.toNat_lt
  rw [Char.ofNat, dif_pos (.inl (by omega))]
  exact h

theorem le_lead {c : Char} (h : 128 ≤ c.toNat) : 128 ≤ (lead c).toNat := by
  have hv : ¬ c.val.toNat ≤ 127 := by
    have : c.val.toNat = c.toNat := rfl
    omega
  refine le_toNat_ofNat ?_
  rw [String.utf8EncodeChar, if_neg hv]
  split
  · rw [List.headD_cons, UInt8.toNat_ofNat']
    omega
  · split <;> rw [List.headD_cons, UInt8.toNat_ofNat'] <;> omega

/-- Behind the first byte of a character there are no ASCII characters. -/
theorem le_of_mem_tail {c : Char} {b : UInt8} (h : b ∈ (String.utf8EncodeChar c).tail) :
    128 ≤ b.toNat := by
  rw [String.utf8EncodeChar] at h
  split at h
  · cases h
  · split at h
    · simp only [List.tail_cons, List.mem_cons, List.not_mem_nil, or_false] at h
      rw [h, UInt8.toNat_ofNat']
      omega
    · split at h <;> simp only [List.tail_cons, List.mem_cons, List.not_mem_nil, or_false] at h
      · rcases h with rfl | rfl <;> rw [UInt8.toNat_ofNat'] <;> omega
      · rcases h with rfl | rfl | rfl <;> rw [UInt8.toNat_ofNat'] <;> omega

/-- Where a character begins, its first byte is seen, and nothing at the end. -/
theorem peek_utf8Length (before rest : List Char) :
    peek (before ++ rest) (utf8Length before) = rest.head?.map lead := by
  rw [peek, utf8Bytes_append, ← length_utf8Bytes, List.getElem?_append_right (Nat.le_refl _),
    Nat.sub_self]
  cases rest with
  | nil => rfl
  | cons c rest =>
    have hlen := String.length_utf8EncodeChar c
    have hpos := c.utf8Size_pos
    rw [utf8Bytes, List.flatMap_cons, List.head?_cons, Option.map_some, lead]
    cases hb : String.utf8EncodeChar c with
    | nil =>
      rw [hb, List.length_nil] at hlen
      omega
    | cons b bs => rfl

theorem peek_of_lt (before rest : List Char) {c : Char} (h : c.toNat < 128) :
    peek (before ++ c :: rest) (utf8Length before) = some c := by
  rw [peek_utf8Length, List.head?_cons, Option.map_some, lead_eq_self h]

/-- Inside a character a byte is seen that is no ASCII character. -/
theorem peek_inside (before rest : List Char) {c : Char} {n : Nat} (hpos : 0 < n)
    (hn : n < c.utf8Size) :
    ∃ d, peek (before ++ c :: rest) (utf8Length before + n) = some d ∧ 128 ≤ d.toNat := by
  have hlen := String.length_utf8EncodeChar c
  obtain ⟨m, rfl⟩ : ∃ m, n = m + 1 := Nat.exists_eq_succ_of_ne_zero (Nat.ne_of_gt hpos)
  cases hbytes : String.utf8EncodeChar c with
  | nil =>
    rw [hbytes, List.length_nil] at hlen
    omega
  | cons b bs =>
    rw [hbytes, List.length_cons] at hlen
    have hm : m < bs.length := by omega
    have hmem : bs[m] ∈ (String.utf8EncodeChar c).tail := by
      rw [hbytes]
      exact List.getElem_mem hm
    refine ⟨_, ?_, le_toNat_ofNat (le_of_mem_tail hmem)⟩
    rw [peek, utf8Bytes_append, ← length_utf8Bytes,
      List.getElem?_append_right (Nat.le_add_right _ _), Nat.add_sub_cancel_left, utf8Bytes,
      List.flatMap_cons, hbytes, List.cons_append,
      List.getElem?_cons_succ, List.getElem?_append_left hm, List.getElem?_eq_getElem hm]
    rfl

theorem utf8Size_of_lt {c : Char} (h : c.toNat < 128) : c.utf8Size = 1 :=
  Char.utf8Size_eq_one_iff.2 (UInt32.le_iff_toNat_le.2 (Nat.le_of_lt_succ h))

/-- A byte of ASCII characters is one of them. -/
theorem mem_of_peek {before cs rest : List Char} {n : Nat} {c : Char}
    (hcs : ∀ d ∈ cs, d.toNat < 128) (hle : utf8Length before ≤ n)
    (hlt : n < utf8Length (before ++ cs)) (h : peek (before ++ (cs ++ rest)) n = some c) :
    c ∈ cs := by
  induction cs generalizing before with
  | nil =>
    rw [List.append_nil] at hlt
    omega
  | cons d cs ih =>
    obtain ⟨hd, hcs⟩ := List.forall_mem_cons.1 hcs
    rcases Nat.eq_or_lt_of_le hle with rfl | hgt
    · rw [peek_utf8Length, List.cons_append, List.head?_cons, Option.map_some, lead_eq_self hd] at h
      cases h
      exact List.mem_cons_self
    · refine List.mem_cons_of_mem d (@ih (before ++ [d]) hcs ?_ ?_ ?_)
      · rw [utf8Length_append, utf8Length_cons, utf8Size_of_lt hd, utf8Length_nil]
        omega
      · rwa [List.append_assoc]
      · rwa [List.append_assoc]

/-- The class holds ASCII characters only. -/
def AsciiOnly (p : Char → Bool) : Prop := ∀ c, 128 ≤ c.toNat → p c = false

namespace AsciiOnly

variable {p : Char → Bool}

/-- A class of ASCII characters tells a character by its first byte. -/
theorem lead (h : AsciiOnly p) (c : Char) : p (lead c) = p c := by
  rcases Nat.lt_or_ge c.toNat 128 with hc | hc
  · rw [lead_eq_self hc]
  · rw [h c hc, h _ (le_lead hc)]

theorem lt (h : AsciiOnly p) {c : Char} (hc : p c = true) : c.toNat < 128 := by
  refine Nat.lt_of_not_le fun hle => ?_
  rw [h c hle] at hc
  cases hc

theorem any_peek (h : AsciiOnly p) (before rest : List Char) :
    (peek (before ++ rest) (utf8Length before)).any p = rest.head?.any p := by
  rw [peek_utf8Length]
  cases rest with
  | nil => rfl
  | cons c rest => exact h.lead c

/-- The bytes of a class of ASCII characters end where the characters of the class do. -/
theorem runEnd_eq (h : AsciiOnly p) (before rest : List Char) :
    runEnd p (before ++ rest) (utf8Length before) =
      utf8Length (before ++ rest.takeWhile p) := by
  induction rest generalizing before with
  | nil =>
    rw [runEnd]
    split
    · simp
    · rename_i hc
      rw [peek_utf8Length] at hc
      cases hc
  | cons c rest ih =>
    rw [runEnd]
    split
    · rename_i hc
      rw [peek_utf8Length] at hc
      cases hc
    · rename_i d hd
      rw [peek_utf8Length] at hd
      cases hd
      rw [h.lead c]
      split
      · rename_i hc
        have hstep := ih (before ++ [c])
        rw [List.append_assoc, List.singleton_append, utf8Length_append, utf8Length_cons,
          utf8Size_of_lt (h.lt hc), utf8Length_nil, Nat.add_zero, List.append_assoc] at hstep
        rw [List.takeWhile_cons_of_pos hc]
        exact hstep
      · rename_i hc
        rw [List.takeWhile_cons_of_neg (by simpa using hc), List.append_nil]

end AsciiOnly

/-! ## Boundaries -/

theorem isBoundary_utf8Length (before rest : List Char) :
    isBoundary (utf8Length before) (before ++ rest) = true := by
  induction before with
  | nil => simp [isBoundary]
  | cons c before ih =>
    obtain ⟨n, hn⟩ : ∃ n, utf8Length (c :: before) = n + 1 :=
      Nat.exists_eq_succ_of_ne_zero (Nat.ne_of_gt (utf8Length_pos (List.cons_ne_nil c before)))
    rw [hn, List.cons_append, isBoundary, ← hn, utf8Length_cons, Nat.add_sub_cancel_left, ih]
    simp

/-- The boundaries are the lengths of what the text begins with. -/
theorem isBoundary_iff {n : Nat} {cs : List Char} :
    isBoundary n cs = true ↔ ∃ before, before <+: cs ∧ utf8Length before = n := by
  constructor
  · intro h
    fun_induction isBoundary n cs with
    | case1 cs => exact ⟨[], List.nil_prefix, rfl⟩
    | case2 => cases h
    | case3 n c cs ih =>
      simp only [Bool.and_eq_true, decide_eq_true_eq] at h
      obtain ⟨before, hb, hn⟩ := ih h.2
      refine ⟨c :: before, List.cons_prefix_cons.2 ⟨rfl, hb⟩, ?_⟩
      rw [utf8Length_cons, hn]
      omega
  · rintro ⟨before, ⟨rest, rfl⟩, rfl⟩
    exact isBoundary_utf8Length before rest

/-- A boundary is not past the end. -/
theorem le_of_isBoundary {n : Nat} {cs : List Char} (h : isBoundary n cs = true) :
    n ≤ utf8Length cs := by
  obtain ⟨before, ⟨rest, rfl⟩, rfl⟩ := isBoundary_iff.1 h
  rw [utf8Length_append]
  omega

theorem slice?_append (as bs cs : List Char) :
    slice? (utf8Length as) (utf8Length (as ++ bs)) (as ++ bs ++ cs) = some bs := by
  have hstart := isBoundary_utf8Length as (bs ++ cs)
  rw [← List.append_assoc] at hstart
  rw [slice?, hstart, isBoundary_utf8Length, slice_append, utf8Length_append]
  simp

/-- A slice is what stands between its offsets. -/
theorem slice?_eq_some_iff {start stop : Nat} {cs ds : List Char} :
    slice? start stop cs = some ds ↔
      ∃ before after, cs = before ++ ds ++ after ∧ utf8Length before = start ∧
        start + utf8Length ds = stop := by
  constructor
  · intro h
    unfold slice? at h
    split at h
    · rename_i hand
      simp only [Bool.and_eq_true, decide_eq_true_eq] at hand
      obtain ⟨before, hbefore, rfl⟩ := isBoundary_iff.1 hand.1.2
      obtain ⟨upto, hupto, rfl⟩ := isBoundary_iff.1 hand.2
      obtain ⟨mid, rfl⟩ : before <+: upto := isPrefix_of_utf8Length_le hbefore hupto hand.1.1
      obtain ⟨after, rfl⟩ := hupto
      rw [slice_append] at h
      cases h
      exact ⟨before, after, rfl, rfl, (utf8Length_append before ds).symm⟩
    · cases h
  · rintro ⟨before, after, rfl, rfl, rfl⟩
    rw [← utf8Length_append, slice?_append]

theorem utf8Length_of_slice? {start stop : Nat} {cs ds : List Char}
    (h : slice? start stop cs = some ds) : start + utf8Length ds = stop := by
  obtain ⟨-, -, -, -, hstop⟩ := slice?_eq_some_iff.1 h
  exact hstop

theorem isBoundary_of_slice? {start stop : Nat} {cs ds : List Char}
    (h : slice? start stop cs = some ds) :
    isBoundary start cs = true ∧ isBoundary stop cs = true := by
  unfold slice? at h
  split at h
  · rename_i hand
    simp only [Bool.and_eq_true] at hand
    exact ⟨hand.1.2, hand.2⟩
  · cases h

end Stencil.Text
