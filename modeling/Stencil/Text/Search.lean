/-!
# Searching a text for a fixed word

`splitAtWord word cs` cuts `cs` at the first place where `word` stands, into what is before and
what is after (`splitAtWord_eq`).
-/

namespace Stencil.Text

/-- What follows `word` at the beginning of a text, if `word` stands there. -/
def stripWord : List Char → List Char → Option (List Char)
  | [], cs => some cs
  | _ :: _, [] => none
  | w :: word, c :: cs => if w = c then stripWord word cs else none

/-- The parts before and after the first occurrence of `word`. -/
def splitAtWord (word : List Char) : List Char → Option (List Char × List Char)
  | [] => (stripWord word []).map ([], ·)
  | c :: cs =>
    match stripWord word (c :: cs) with
    | some after => some ([], after)
    | none => (splitAtWord word cs).map fun p => (c :: p.1, p.2)

theorem stripWord_eq {word cs after : List Char} (h : stripWord word cs = some after) :
    cs = word ++ after := by
  induction word generalizing cs with
  | nil => simpa [stripWord] using h
  | cons w word ih =>
    cases cs with
    | nil => simp [stripWord] at h
    | cons c cs =>
      by_cases hw : w = c
      · simp only [stripWord, hw, if_true] at h
        simp [hw, ih h]
      · simp [stripWord, hw] at h

theorem stripWord_append (word rest : List Char) : stripWord word (word ++ rest) = some rest := by
  induction word with
  | nil => rfl
  | cons w word ih => simp [stripWord, ih]

theorem splitAtWord_eq {word cs before after : List Char}
    (h : splitAtWord word cs = some (before, after)) : cs = before ++ word ++ after := by
  induction cs generalizing before after with
  | nil =>
    obtain ⟨r, hr, he⟩ := Option.map_eq_some_iff.1 h
    obtain ⟨rfl, rfl⟩ := Prod.mk.inj he
    simpa using stripWord_eq hr
  | cons c cs ih =>
    rw [splitAtWord] at h
    split at h
    · rename_i r hr
      obtain ⟨rfl, rfl⟩ := Prod.mk.inj (Option.some.inj h)
      simpa using stripWord_eq hr
    · obtain ⟨p, hp, he⟩ := Option.map_eq_some_iff.1 h
      obtain ⟨rfl, rfl⟩ := Prod.mk.inj he
      have := ih hp
      simp only [this, List.cons_append]

/-- A backslash stands at the end of a text or before a character. -/
theorem ne_of_not_escape {c : Char} {cs : List Char} (hend : c = '\\' → cs = [] → False)
    (hmore : ∀ d ds, c = '\\' → cs = d :: ds → False) : c ≠ '\\' := fun he => by
  cases cs with
  | nil => exact hend he rfl
  | cons d ds => exact hmore d ds he rfl

end Stencil.Text
