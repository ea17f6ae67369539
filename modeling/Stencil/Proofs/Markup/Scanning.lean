import Stencil.Proofs.Markup.Opening

/-!
# What the searches pass over

A printed block stands in the way of two searches: the one for the next construct (`findHead`) and
the one for the closing tag of the container around it (`findCloser`). `Throughout P x rest` says
that `P` holds wherever in `x` a search can stand, with `rest` behind `x`.

* Text that is free of the beginnings of tags is passed over by both (`TagFree.quiet`,
  `findHead_append`, `findCloser_append`).
* The opening tag of a container is counted by the search for its own kind, its closing tag
  likewise (`findCloser_openTag`, `findCloser_closer_succ`).
-/

namespace Stencil.Markup

open Stencil.Text

/-! ## Every place of a text -/

/-- At every place in `x` the property holds of all that follows, `rest` included. -/
def Throughout (P : List Char → Prop) : List Char → List Char → Prop
  | [], _ => True
  | c :: x, rest => P (c :: (x ++ rest)) ∧ Throughout P x rest

instance decidableThroughout {P : List Char → Prop} [DecidablePred P] :
    (x rest : List Char) → Decidable (Throughout P x rest)
  | [], _ => .isTrue trivial
  | c :: x, rest =>
    have := decidableThroughout (P := P) x rest
    inferInstanceAs (Decidable (P (c :: (x ++ rest)) ∧ Throughout P x rest))

section

variable {P Q : List Char → Prop} {x y rest : List Char}

theorem throughout_append :
    Throughout P (x ++ y) rest ↔ Throughout P x (y ++ rest) ∧ Throughout P y rest := by
  induction x with
  | nil => simp [Throughout]
  | cons c x ih => simp [Throughout, ih, and_assoc]

theorem Throughout.mono (h : Throughout P x rest) (hPQ : ∀ cs, P cs → Q cs) :
    Throughout Q x rest := by
  induction x with
  | nil => trivial
  | cons c x ih => exact ⟨hPQ _ h.1, ih h.2⟩

/-- The places in a text are its endings. -/
theorem throughout_iff :
    Throughout P x rest ↔ ∀ y, y ≠ [] → y <:+ x → P (y ++ rest) := by
  induction x with
  | nil => exact ⟨fun _ y hy hs => absurd (List.suffix_nil.1 hs) hy, fun _ => trivial⟩
  | cons c x ih =>
    rw [Throughout, ih]
    constructor
    · rintro ⟨hc, hx⟩ y hy hs
      rcases List.suffix_cons_iff.1 hs with rfl | hs
      · exact hc
      · exact hx y hy hs
    · intro h
      refine ⟨h (c :: x) (List.cons_ne_nil c x) List.suffix_rfl, fun y hy hs => ?_⟩
      exact h y hy (hs.trans (List.suffix_cons c x))

theorem throughout_of_mem (h : ∀ c ∈ x, ∀ cs, P (c :: cs)) : Throughout P x rest := by
  induction x with
  | nil => trivial
  | cons c x ih =>
    exact ⟨h c List.mem_cons_self _, ih fun d hd => h d (List.mem_cons_of_mem _ hd)⟩

end

/-! ## Fixed words -/

section

variable {word x rest : List Char}

theorem splitAtWord_word {w : Char} (word rest : List Char) :
    splitAtWord (w :: word) (w :: word ++ rest) = some ([], rest) := by
  rw [List.cons_append, splitAtWord, ← List.cons_append, stripWord_append]

theorem splitAtWord_self (word rest : List Char) :
    splitAtWord word (word ++ rest) = some ([], rest) := by
  cases word with
  | nil => cases rest <;> rfl
  | cons w word => exact splitAtWord_word word rest

/-- A word is looked for behind the places where it does not stand. -/
theorem splitAtWord_append (h : Throughout (stripWord word · = none) x rest) :
    splitAtWord word (x ++ rest) = (splitAtWord word rest).map (prepend x) := by
  induction x with
  | nil => simp
  | cons c x ih =>
    rw [List.cons_append, splitAtWord, h.1]
    show (splitAtWord word (x ++ rest)).map (prepend [c]) = _
    simp [ih h.2]

/-- A word that stands in a text also stands in a longer one. -/
theorem splitAtWord_append_ne_none (x : List Char) (h : splitAtWord word rest ≠ none) :
    splitAtWord word (x ++ rest) ≠ none := by
  induction x with
  | nil => exact h
  | cons c x ih =>
    rw [List.cons_append, splitAtWord]
    split
    · exact Option.some_ne_none _
    · rwa [Ne, Option.map_eq_none_iff]

theorem splitAtWord_ne_none_iff : splitAtWord word x ≠ none ↔ word <:+: x := by
  constructor
  · intro h
    obtain ⟨⟨before, after⟩, hs⟩ := Option.ne_none_iff_exists'.1 h
    exact ⟨before, after, (splitAtWord_eq hs).symm⟩
  · rintro ⟨before, after, rfl⟩
    rw [List.append_assoc]
    refine splitAtWord_append_ne_none before ?_
    rw [splitAtWord_self]
    exact Option.some_ne_none _

/-- A word that begins in `x` and cannot be continued by `rest` stands in `x`. -/
theorem isPrefix_of_append (hx : x ≠ []) (hr : ∀ c ∈ rest.head?, c ∉ word.tail)
    (h : word <+: x ++ rest) : word <+: x := by
  obtain ⟨after, h⟩ := h
  rcases List.append_eq_append_iff.1 h with ⟨a, hx, -⟩ | ⟨a, hw, hr'⟩
  · exact ⟨a, hx.symm⟩
  · cases a with
    | nil => exact ⟨[], by simp [hw]⟩
    | cons c a =>
      refine absurd ?_ (hr c (by simp [hr']))
      obtain ⟨d, x', rfl⟩ := List.exists_cons_of_ne_nil hx
      simp [hw]

/-- A word that begins in `x` and does not go over the end of `x` stands in `x`. -/
theorem isPrefix_of_append_of_getLast? (hx : x ≠ []) (hl : ∀ c ∈ x.getLast?, c ∉ word.dropLast)
    (h : word <+: x ++ rest) : word <+: x := by
  obtain ⟨after, h⟩ := h
  rcases List.append_eq_append_iff.1 h with ⟨a, hx, -⟩ | ⟨a, hw, -⟩
  · exact ⟨a, hx.symm⟩
  · rcases List.eq_nil_or_concat a with rfl | ⟨a, d, rfl⟩
    · exact ⟨[], by simp [hw]⟩
    · have hdrop : word.dropLast = x ++ a := by
        rw [hw, List.concat_eq_append, ← List.append_assoc, List.dropLast_concat]
      refine absurd ?_ (hl (x.getLast hx) (List.getLast?_eq_some_getLast hx))
      exact hdrop ▸ List.mem_append_left a (List.getLast_mem hx)

end

/-! ## Beginnings of markup -/

/-- One of the words stands here. -/
def BeginsWith (words : List (List Char)) (cs : List Char) : Prop := ∃ w ∈ words, w <+: cs

/-- Words that do not stand in `x` and cannot be continued by `rest` begin nowhere in `x`. -/
theorem throughout_not_beginsWith {words : List (List Char)} {x rest : List Char}
    (h : ∀ w ∈ words, ¬ w <:+: x) (hr : ∀ c ∈ rest.head?, ∀ w ∈ words, c ∉ w.tail) :
    Throughout (fun cs => ¬ BeginsWith words cs) x rest := by
  induction x with
  | nil => trivial
  | cons c x ih =>
    refine ⟨?_, ih fun w hw hi => h w hw (hi.trans (List.suffix_cons c x).isInfix)⟩
    rintro ⟨w, hw, hp⟩
    have hp : w <+: c :: x ++ rest := hp
    exact h w hw (isPrefix_of_append (by simp) (fun d hd => hr d hd w hw) hp).isInfix

/-- What may begin a construct: a tag or an inline expression. -/
def marks : List (List Char) := ['$', '{'] :: tagMarks

/-- No text that ends here can be continued by `rest` to the beginning of a construct. -/
def Boundary (rest : List Char) : Prop := ∀ c ∈ rest.head?, ∀ w ∈ marks, c ∉ w.tail

theorem boundary_nil : Boundary [] := nofun

theorem boundary_dollar (rest : List Char) : Boundary ('$' :: rest) := by
  rintro c ⟨⟩
  decide

theorem boundary_angle (rest : List Char) : Boundary ('<' :: rest) := by
  rintro c ⟨⟩
  decide

theorem boundary_brace (rest : List Char) : Boundary ('}' :: rest) := by
  rintro c ⟨⟩
  decide

/-- No tag begins anywhere in `x` if `rest` follows. -/
def Quiet (x rest : List Char) : Prop := Throughout (fun cs => ¬ BeginsWith tagMarks cs) x rest

theorem quiet_append {x y rest : List Char} (hx : Quiet x (y ++ rest)) (hy : Quiet y rest) :
    Quiet (x ++ y) rest :=
  throughout_append.2 ⟨hx, hy⟩

theorem exists_of_mem_tagMarks {w : List Char} (h : w ∈ tagMarks) :
    ∃ v, w = '<' :: v ∧ '\x27' ∉ w ∧ '\\' ∉ w := by
  have hall : ∀ w ∈ tagMarks, w.head? = some '<' ∧ '\x27' ∉ w ∧ '\\' ∉ w := by decide
  obtain ⟨hh, hq, hb⟩ := hall w h
  obtain ⟨v, rfl⟩ := List.head?_eq_some_iff.1 hh
  exact ⟨v, rfl, hq, hb⟩

/-- Tags begin with an angle bracket. -/
theorem quiet_of_not_mem {x : List Char} (h : '<' ∉ x) (rest : List Char) : Quiet x rest := by
  refine throughout_of_mem ?_
  rintro c hc cs ⟨w, hw, hp⟩
  obtain ⟨v, rfl, -, -⟩ := exists_of_mem_tagMarks hw
  exact h ((List.cons_prefix_cons.1 hp).1 ▸ hc)

/-- Text without the beginnings of tags is quiet. -/
theorem TagFree.quiet {x rest : List Char} (h : TagFree x) (hr : Boundary rest) : Quiet x rest :=
  throughout_not_beginsWith h fun c hc w hw => hr c hc w (List.mem_cons_of_mem _ hw)

theorem isPrefix_of_escape {w x rest : List Char} (hq : '\x27' ∉ w) (hb : '\\' ∉ w)
    (h : w <+: escape x ++ '\x27' :: rest) : w <+: x := by
  induction w generalizing x with
  | nil => exact List.nil_prefix
  | cons d w ih =>
    rw [List.mem_cons, not_or] at hq hb
    cases x with
    | nil => exact absurd (List.cons_prefix_cons.1 h).1 (Ne.symm hq.1)
    | cons c x =>
      rw [escape_cons, escapeChar] at h
      split at h
      · exact absurd (List.cons_prefix_cons.1 h).1 (Ne.symm hb.1)
      · obtain ⟨rfl, hp⟩ := List.cons_prefix_cons.1 h
        exact List.cons_prefix_cons.2 ⟨rfl, ih hq.2 hb.2 hp⟩

/-- A value without the beginnings of tags is quiet between its quotes. -/
theorem TagFree.quiet_escape {x : List Char} (h : TagFree x) (rest : List Char) :
    Quiet (escape x) ('\x27' :: rest) := by
  induction x with
  | nil => trivial
  | cons c x ih =>
    have htail : TagFree x := fun w hw hi => h w hw (hi.trans (List.suffix_cons c x).isInfix)
    rw [escape_cons]
    refine quiet_append ?_ (ih htail)
    rw [escapeChar]
    split
    · rename_i hc
      have hne : c ≠ '<' := by
        rintro rfl
        exact absurd hc (by decide)
      exact quiet_of_not_mem (by simpa using Ne.symm hne) _
    · rename_i hc
      have he : escape (c :: x) = c :: escape x := by rw [escape_cons, escapeChar, if_neg hc]; rfl
      refine ⟨?_, trivial⟩
      rintro ⟨w, hw, hp⟩
      obtain ⟨-, -, hq, hb⟩ := exists_of_mem_tagMarks hw
      have hp : w <+: escape (c :: x) ++ '\x27' :: rest := by rwa [he]
      exact h w hw (isPrefix_of_escape hq hb hp).isInfix

end Stencil.Markup
