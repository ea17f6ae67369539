import Stencil.Text.Bytes

/-!
# Trimming of bodies

A body is cut into four pieces (`Trimmed.whole`): the lead, the content, a run of spaces and a final
line terminator. The lead is a line of spaces at the beginning and the spaces stand right before the
terminator; both are dropped. What stays is the content and the terminator.
-/

namespace Stencil.Markup

/-- A body cut for trimming. -/
structure Trimmed where
  /-- Spaces and a line feed at the beginning, or nothing. -/
  lead : List Char
  content : List Char
  /-- The spaces before the terminator. -/
  spaces : List Char
  /-- The final line terminator, or nothing. -/
  terminator : List Char
deriving DecidableEq

namespace Trimmed

/-- The leading line of a body, if it holds spaces only, and what follows it. -/
def splitLead (cs : List Char) : List Char × List Char :=
  match cs.dropWhile (· = ' ') with
  | '\n' :: rest => (cs.takeWhile (· = ' ') ++ ['\n'], rest)
  | _ => ([], cs)

/-- A text without its final line terminator, reversed, and that terminator. -/
def splitTerminator (cs : List Char) : List Char × List Char :=
  match cs.reverse with
  | '\n' :: '\r' :: rest => (rest, ['\r', '\n'])
  | '\n' :: rest => (rest, ['\n'])
  | '\r' :: rest => (rest, ['\r'])
  | rest => (rest, [])

/-- The pieces of a body. -/
def ofBody (cs : List Char) : Trimmed :=
  let lead := splitLead cs
  let ended := splitTerminator lead.2
  { lead := lead.1
    content := (ended.1.dropWhile (· = ' ')).reverse
    spaces := ended.1.takeWhile (· = ' ')
    terminator := ended.2 }

/-- A body of which everything stays. -/
def untouched (cs : List Char) : Trimmed := ⟨[], cs, [], []⟩

/-- The body that was cut. -/
def whole (t : Trimmed) : List Char := t.lead ++ t.content ++ t.spaces ++ t.terminator

/-- The body without what trimming drops. -/
def kept (t : Trimmed) : List Char := t.content ++ t.terminator

/-- Whether the terminator was cut off from the content: spaces between them were dropped. -/
def isSevered (t : Trimmed) : Bool := !t.spaces.isEmpty && !t.terminator.isEmpty

/-- The part of the body in which blocks are looked for. -/
def main (t : Trimmed) : List Char := if t.isSevered then t.content else t.kept

/-- The terminator, if it is not in the main part. -/
def tail (t : Trimmed) : List Char := if t.isSevered then t.terminator else []

/-- The text between the beginning of the body and its tail. -/
def beforeTail (t : Trimmed) : List Char := t.lead ++ t.content ++ t.spaces

theorem splitLead_eq (cs : List Char) : (splitLead cs).1 ++ (splitLead cs).2 = cs := by
  unfold splitLead
  split
  · rename_i rest h
    rw [List.append_assoc, List.singleton_append, ← h, List.takeWhile_append_dropWhile]
  · rfl

theorem splitTerminator_eq (cs : List Char) :
    (splitTerminator cs).1.reverse ++ (splitTerminator cs).2 = cs := by
  unfold splitTerminator
  split
  · rename_i rest h
    rw [← List.reverse_reverse cs, h]
    simp
  · rename_i rest _ h
    rw [← List.reverse_reverse cs, h]
    simp
  · rename_i rest h
    rw [← List.reverse_reverse cs, h]
    simp
  · simp

theorem takeWhile_space (cs : List Char) :
    cs.takeWhile (· = ' ') = List.replicate (cs.takeWhile (· = ' ')).length ' ' := by
  have h := List.all_takeWhile (p := (· = ' ')) (l := cs)
  exact List.eq_replicate_of_mem fun c hc => by simpa using List.all_eq_true.1 h c hc

theorem reverse_takeWhile_space (cs : List Char) :
    (cs.takeWhile (· = ' ')).reverse = cs.takeWhile (· = ' ') := by
  rw [takeWhile_space, List.reverse_replicate]

/-- A reversed text in order again, with its last run of spaces cut off. -/
theorem reverse_dropWhile_append_takeWhile (cs : List Char) :
    (cs.dropWhile (· = ' ')).reverse ++ cs.takeWhile (· = ' ') = cs.reverse := by
  conv => lhs; rw [← reverse_takeWhile_space cs, ← List.reverse_append]
  rw [List.takeWhile_append_dropWhile]

/-- No character is lost or moved by the cut. -/
theorem whole_ofBody (cs : List Char) : (ofBody cs).whole = cs := by
  simp only [whole, ofBody, List.append_assoc]
  rw [← List.append_assoc (List.reverse _), reverse_dropWhile_append_takeWhile,
    splitTerminator_eq, splitLead_eq]

section

variable (cs : List Char)

theorem whole_untouched : (untouched cs).whole = cs := by
  simp [whole, untouched]

@[simp] theorem lead_untouched : (untouched cs).lead = [] := rfl

@[simp] theorem kept_untouched : (untouched cs).kept = cs := by
  simp [kept, untouched]

@[simp] theorem main_untouched : (untouched cs).main = cs := by
  simp [main, isSevered, kept, untouched]

@[simp] theorem tail_untouched : (untouched cs).tail = [] := rfl

end

section

variable {t : Trimmed}

theorem isSevered_iff : t.isSevered = true ↔ t.spaces ≠ [] ∧ t.terminator ≠ [] := by
  simp [isSevered]

theorem not_isSevered_iff : ¬ t.isSevered = true ↔ t.spaces = [] ∨ t.terminator = [] := by
  rw [isSevered_iff, Classical.not_and_iff_not_or_not, Classical.not_not, Classical.not_not]

/-- If the terminator was not cut off, only the lead and the spaces are dropped. -/
theorem whole_of_not_isSevered (h : ¬ t.isSevered = true) :
    t.whole = t.lead ++ (t.kept ++ t.spaces) := by
  rcases not_isSevered_iff.1 h with hnil | hnil <;> simp [whole, kept, hnil]

end

/-- Between the main part and the tail stands what trimming drops there. -/
theorem exists_gap (t : Trimmed) :
    ∃ gap, t.whole = t.lead ++ t.main ++ gap ++ t.tail ∧
      (t.tail ≠ [] → t.beforeTail = t.lead ++ t.main ++ gap) := by
  by_cases h : t.isSevered = true
  · exact ⟨t.spaces, by simp [whole, main, tail, h], by simp [beforeTail, main, h]⟩
  · refine ⟨t.spaces, ?_, fun htail => absurd (if_neg h) htail⟩
    rw [whole_of_not_isSevered h]
    simp [main, tail, h]

/-- The main part follows the lead. -/
theorem lead_append_main_isPrefix (t : Trimmed) : t.lead ++ t.main <+: t.whole := by
  obtain ⟨gap, hwhole, -⟩ := t.exists_gap
  exact ⟨gap ++ t.tail, by rw [hwhole, ← List.append_assoc]⟩

theorem beforeTail_isPrefix (t : Trimmed) : t.beforeTail <+: t.whole :=
  List.prefix_append _ _

theorem utf8Length_main_le (t : Trimmed) :
    Text.utf8Length t.main ≤ Text.utf8Length t.whole := by
  unfold main kept whole
  split <;> simp only [Text.utf8Length_append] <;> omega

theorem length_main_le (t : Trimmed) : t.main.length ≤ t.whole.length := by
  unfold main kept whole
  split <;> simp only [List.length_append] <;> omega

end Trimmed

end Stencil.Markup
