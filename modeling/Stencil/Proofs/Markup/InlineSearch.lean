import Stencil.Markup.Search
import Stencil.Proofs.Markup.Locality
import Stencil.Proofs.Markup.RoundTrip
import Stencil.Proofs.Text.Pattern
import Stencil.Proofs.Text.WhiteSpace

/-!
# The first inline expression of a range

The pattern of inline expressions leaves many ways to match: white space may belong to the
expression or to what surrounds it, and a brace may end the expression or not. Of these ways the
preferred one ends at the first closing brace, and the expression is the text before it without the
white space at its ends (`Inline.first_pattern`). So the search by the pattern returns the first
inline expression of a range, as it stands in the source, and nothing if there is none
(`Inline.searchIn?_first`).
-/

namespace Stencil.Markup.Inline

open Stencil.Text Stencil.Text.Pattern

variable {cs inner x : List Char} {c : Char}

/-! ## The way that the pattern prefers -/

theorem splitAtWord_brace_cons (c : Char) (cs : List Char) :
    splitAtWord ['}'] (c :: cs) =
      if c = '}' then some ([], cs) else (splitAtWord ['}'] cs).map (prepend [c]) := by
  by_cases hc : c = '}'
  · subst hc
    exact splitAtWord_word [] cs
  · rw [splitAtWord, stripWord, if_neg (Ne.symm hc), if_neg hc]
    rfl

theorem splitAtWord_brace_append (h : '}' ∉ x) (cs : List Char) :
    splitAtWord ['}'] (x ++ cs) = (splitAtWord ['}'] cs).map (prepend x) := by
  induction x with
  | nil => simp
  | cons c x ih =>
    rw [List.mem_cons, not_or] at h
    rw [List.cons_append, splitAtWord_brace_cons, if_neg (Ne.symm h.1), ih h.2]
    simp

theorem not_mem_of_splitAtWord_brace {after : List Char}
    (h : splitAtWord ['}'] cs = some (inner, after)) : '}' ∉ inner := by
  induction cs generalizing inner with
  | nil => cases h
  | cons c cs ih =>
    rw [splitAtWord_brace_cons] at h
    split at h
    · cases h
      exact List.not_mem_nil
    · rename_i hc
      obtain ⟨p, hp, he⟩ := Option.map_eq_some_iff.1 h
      cases he
      exact List.not_mem_cons_of_ne_of_not_mem (Ne.symm hc) (ih hp)

theorem not_isWhiteSpace_brace : isWhiteSpace '}' = false := by decide

/-- White space and the brace behind it: the text before the first brace has to be blank. -/
theorem first_closing (cs : List Char) :
    first [blankRun, .char '}'] cs =
      (splitAtWord ['}'] cs).bind fun p =>
        if isBlank p.1 then some ⟨[p.1, ['}']], p.2⟩ else none := by
  have hrun : first [blankRun, .char '}'] cs =
      (first [.char '}'] (trimStart cs)).map fun m => ⟨blanks cs :: m.pieces, m.rest⟩ := by
    rw [first_cons, blankRun, choose_run_of_stop]
    · rfl
    · intro x c ds hc
      have hne : c ≠ '}' := fun he => by simp [he, not_isWhiteSpace_brace] at hc
      rw [first_char_cons, if_neg hne, Option.map_none]
  have hblanks := isBlank_blanks cs
  rw [hrun]
  conv => rhs; rw [← blanks_append_trimStart cs,
    splitAtWord_brace_append (not_mem_of_isBlank hblanks not_isWhiteSpace_brace)]
  cases ht : trimStart cs with
  | nil => rfl
  | cons c ds =>
    rw [first_char_cons, splitAtWord_brace_cons]
    split
    · rename_i hc
      simp [hc, first_nil, prepend, hblanks]
    · -- the text before the brace is not blank, for it holds `c`
      have hc : isWhiteSpace c = false := isWhiteSpace_of_trimStart ht
      cases splitAtWord ['}'] ds with
      | none => rfl
      | some p =>
        have hblank : isBlank (blanks cs ++ c :: p.1) = false := by simp [isBlank, hc]
        simp [prepend, hblank]

/-- The expression, which has taken `x` before it comes to `cs`, the white space behind it and the
brace. -/
theorem choose_expression (x cs : List Char) :
    choose (.many false (.one (· ≠ '\n')))
        (fun y ds =>
          (first [blankRun, .char '}'] ds).map fun m => ⟨(x ++ y) :: m.pieces, m.rest⟩) cs =
      (splitAtWord ['}'] cs).bind fun p =>
        if '\n' ∈ trimEnd p.1 then none
        else some (⟨[x ++ trimEnd p.1, trailingBlanks p.1, ['}']], p.2⟩ : Match) := by
  induction cs generalizing x with
  | nil =>
    rw [choose_many_nil, first_closing]
    rfl
  | cons c cs ih =>
    have hstop := first_closing (c :: cs)
    rw [splitAtWord_brace_cons] at hstop ⊢
    by_cases hc : c = '}'
    · subst hc
      rw [choose_reluctant_cons (by decide), hstop]
      rfl
    · rw [if_neg hc] at hstop ⊢
      by_cases hn : c = '\n'
      · subst hn
        rw [choose_many_stop (by decide), hstop]
        cases splitAtWord ['}'] cs with
        | none => rfl
        | some p =>
          cases hb : isBlank ('\n' :: p.1) with
          | true => simp [prepend, hb, trimEnd_eq_nil_iff.2 hb, trailingBlanks_of_isBlank hb]
          | false => simp [prepend, hb, trimEnd_cons hb]
      · have hmore := ih (x ++ [c])
        simp only [List.append_assoc, List.singleton_append] at hmore
        rw [choose_reluctant_cons (by simp [hn]), hstop, hmore]
        cases splitAtWord ['}'] cs with
        | none => rfl
        | some p =>
          cases hb : isBlank (c :: p.1) with
          | true => simp [prepend, hb, trimEnd_eq_nil_iff.2 hb, trailingBlanks_of_isBlank hb]
          | false => simp [prepend, hb, trimEnd_cons hb, trailingBlanks_cons hb, Ne.symm hn]

/-- The expression, the white space behind it and the brace: where the text before the first brace
has no line feed except in the white space at its end. -/
theorem first_expression (cs : List Char) :
    first (pattern.drop 3) cs =
      (splitAtWord ['}'] cs).bind fun p =>
        if '\n' ∈ trimEnd p.1 then none
        else some ⟨[trimEnd p.1, trailingBlanks p.1, ['}']], p.2⟩ := by
  have hclass : (fun c => isWord c || decide (c ≠ '\n')) = fun c => decide (c ≠ '\n') := by
    funext c
    by_cases hc : c = '\n'
    · subst hc
      decide
    · simp [hc]
  show first (.many false (.alt (.one isWord) (.one (· ≠ '\n'))) :: pattern.drop 4) cs = _
  rw [first_cons, choose_many_alt, hclass]
  exact choose_expression [] cs

/-- What the pieces of the pattern take of an inline expression. -/
def pieces (i : Inline) : List (List Char) :=
  [['$'], ['{'], i.opening.drop 2, i.expression, i.closing.dropLast, ['}']]

theorem pieces_of_read {i : Inline} (h : read cs = some i) :
    (i.pieces.take 3).flatten = i.opening ∧ i.pieces.flatten = i.extent := by
  unfold read at h
  split at h
  · split at h
    · cases h
    · split at h
      · cases h
      · cases h
        simp [pieces, extent]
  · cases h

/-- Of the text behind the opening brace the first white space takes as much as it can: the search
succeeds behind less of it only if it does so behind all of it. -/
theorem first_opened (cs : List Char) :
    first (pattern.drop 2) cs =
      (splitAtWord ['}'] cs).bind fun p =>
        if '\n' ∈ trim p.1 then none
        else some ⟨[blanks p.1, trim p.1, trailingBlanks (trimStart p.1), ['}']], p.2⟩ := by
  have hbrace {x : List Char} (hx : isBlank x = true) : '}' ∉ x :=
    not_mem_of_isBlank hx not_isWhiteSpace_brace
  have hblanks := isBlank_blanks cs
  have hrun : first (pattern.drop 2) cs =
      (first (pattern.drop 3) (trimStart cs)).map fun m => ⟨blanks cs :: m.pieces, m.rest⟩ := by
    show first (blankRun :: pattern.drop 3) cs = _
    rw [first_cons, blankRun, choose_run]
    · rfl
    · intro hnone x y hxy
      have hy : isBlank y = true := isBlank_iff.2 fun c hc => List.mem_takeWhile_imp
        (show c ∈ cs.takeWhile isWhiteSpace from hxy ▸ List.mem_append_right x hc)
      rw [Option.map_eq_none_iff, first_expression] at hnone ⊢
      rw [splitAtWord_brace_append (hbrace hy)]
      cases hs : splitAtWord ['}'] (cs.dropWhile isWhiteSpace) with
      | none => rfl
      | some p =>
        rw [hs, Option.bind_some, ite_eq_left_iff] at hnone
        have hline : '\n' ∈ trimEnd p.1 := Decidable.of_not_not fun h => nomatch hnone h
        simp [prepend, mem_trimEnd_append hline]
  rw [hrun, first_expression]
  conv => rhs; rw [← blanks_append_trimStart cs, splitAtWord_brace_append (hbrace hblanks)]
  cases hs : splitAtWord ['}'] (trimStart cs) with
  | none => rfl
  | some p =>
    have hstart : trimStart p.1 = p.1 := trimStart_of_trimStart_eq (by
      rw [splitAtWord_eq hs, List.append_assoc])
    simp only [Option.map_some, Option.bind_some, prepend, trim, trimStart_append hblanks,
      blanks_append hblanks, hstart, blanks_eq_nil hstart, List.append_nil]
    split <;> rfl

/-- Of all ways in which the pattern matches it prefers the one that `read` finds. -/
theorem first_pattern (cs : List Char) :
    first pattern cs = (read cs).map fun i => ⟨i.pieces, i.after⟩ := by
  have hdollar (cs : List Char) : first pattern ('$' :: '{' :: cs) =
      (first (pattern.drop 2) cs).map fun m => ⟨['$'] :: ['{'] :: m.pieces, m.rest⟩ := by
    rw [show pattern = .char '$' :: .char '{' :: pattern.drop 2 from rfl, first_char_cons,
      if_pos rfl, first_char_cons, if_pos rfl, Option.map_map]
    rfl
  unfold read
  split
  · rename_i cs
    rw [hdollar, first_opened]
    cases splitAtWord ['}'] cs with
    | none => rfl
    | some p =>
      simp only [Option.bind_some]
      split <;> simp [pieces]
  · rename_i hne
    cases cs with
    | nil => rfl
    | cons c cs =>
      rw [show pattern = .char '$' :: .char '{' :: pattern.drop 2 from rfl, first_char_cons]
      split
      · rename_i hc
        cases cs with
        | nil => rfl
        | cons d cs =>
          rw [first_char_cons, if_neg]
          · rfl
          · rintro rfl
            exact hne cs (by rw [hc])
      · rfl

/-! ## The place that the search finds -/

theorem find?_eq_firstPlace (cs : List Char) : find? cs = firstPlace read cs := by
  induction cs with
  | nil => rfl
  | cons c cs ih =>
    rw [find?, firstPlace, ih]
    cases read (c :: cs) <;> rfl

theorem search_pattern (cs : List Char) :
    search pattern cs = (find? cs).map fun p => (p.1, ⟨p.2.pieces, p.2.after⟩) := by
  rw [search, funext first_pattern, find?_eq_firstPlace]
  exact firstPlace_map _ cs

/-- The search by the pattern finds what the reader of inline expressions finds. -/
theorem searchIn?_eq (source : List Char) (start stop : Nat) :
    searchIn? source start stop =
      (findIn? source start stop).map fun p => inlineExtent p.2 (start + utf8Length p.1) := by
  rw [searchIn?, findIn?, search_pattern, Option.map_map]
  refine Option.map_congr fun ⟨before, i⟩ hp => ?_
  rw [find?_eq_firstPlace] at hp
  obtain ⟨y, -, hread, -⟩ := firstPlace_eq_some_iff.1 hp
  obtain ⟨hopening, hextent⟩ := pieces_of_read hread
  have hexpression : i.pieces.getD 3 [] = i.expression := rfl
  simp only [Function.comp_apply, hopening, hextent, hexpression, inlineExtent, extent,
    utf8Length_append, Nat.add_assoc]

/-- An inline expression with the text `inner` between its braces stands in the range from `start`
to `stop` of a source, at the byte offset `first`. -/
structure InlineAt (source : List Char) (start stop first : Nat) (inner : List Char) : Prop where
  stands : Stands source first ('$' :: '{' :: (inner ++ ['}'])) (first + utf8Length inner + 3)
  start_le : start ≤ first
  le_stop : first + utf8Length inner + 3 ≤ stop
  /-- The brace behind the text is the first one. -/
  noBrace : '}' ∉ inner
  noLineFeed : '\n' ∉ trim inner

/-- The extent of an inline expression at the byte offset `first`. -/
def span (first : Nat) (inner : List Char) : Extent :=
  let bodyStart := first + 2 + utf8Length (blanks inner)
  ⟨.inline, [], first, trim inner, bodyStart, bodyStart + utf8Length (trim inner),
    first + utf8Length inner + 3⟩

/-- The inline expression with the text `inner` between its braces. -/
def enclosing (inner after : List Char) : Inline :=
  ⟨'$' :: '{' :: blanks inner, trim inner, trailingBlanks (trimStart inner) ++ ['}'], after⟩

theorem inlineExtent_enclosing (inner after : List Char) (first : Nat) :
    inlineExtent (enclosing inner after) first = span first inner := by
  have hlength := congrArg utf8Length (eq_blanks_trim inner)
  simp only [utf8Length_append] at hlength
  simp only [inlineExtent, enclosing, span, utf8Length_cons, utf8Length_append, utf8Length_nil,
    show '$'.utf8Size = 1 from rfl, show '{'.utf8Size = 1 from rfl,
    show '}'.utf8Size = 1 from rfl]
  simp only [Extent.mk.injEq, true_and]
  omega

theorem read_eq_some_iff {i : Inline} :
    read cs = some i ↔ ∃ inner after, '}' ∉ inner ∧ '\n' ∉ trim inner ∧
      cs = '$' :: '{' :: (inner ++ '}' :: after) ∧ i = enclosing inner after := by
  constructor
  · intro h
    unfold read at h
    split at h
    · split at h
      · cases h
      · rename_i inner after hs
        split at h
        · cases h
        · rename_i hline
          cases h
          refine ⟨inner, after, not_mem_of_splitAtWord_brace hs, hline, ?_, rfl⟩
          simpa using splitAtWord_eq hs
    · cases h
  · rintro ⟨inner, after, hbrace, hline, rfl, rfl⟩
    rw [read, Construct.splitAtWord_brace hbrace]
    simp [hline, enclosing]

section

variable {source text inner : List Char} {start stop first : Nat}

/-- The inline expressions in a range are those in the text of the range. -/
theorem inlineAt_iff (hs : Stands source start text stop) :
    InlineAt source start stop first inner ↔
      ∃ x after, text = x ++ '$' :: '{' :: (inner ++ '}' :: after) ∧
        first = start + utf8Length x ∧ '}' ∉ inner ∧ '\n' ∉ trim inner := by
  have hwhole : utf8Length ('$' :: '{' :: (inner ++ ['}'])) = utf8Length inner + 3 := by
    simp only [utf8Length_cons, utf8Length_append, utf8Length_nil,
      show '$'.utf8Size = 1 from rfl, show '{'.utf8Size = 1 from rfl,
      show '}'.utf8Size = 1 from rfl]
    omega
  constructor
  · rintro ⟨hstands, hstart, hstop, hbrace, hline⟩
    obtain ⟨x, after, htext, hfirst, -⟩ := hs.inside_iff.1 ⟨hstart, hstands, hstop⟩
    exact ⟨x, after, by simpa using htext, hfirst, hbrace, hline⟩
  · rintro ⟨x, after, htext, hfirst, hbrace, hline⟩
    have hlast : first + utf8Length inner + 3 =
        first + utf8Length ('$' :: '{' :: (inner ++ ['}'])) := by rw [hwhole, Nat.add_assoc]
    obtain ⟨hstart, hstands, hstop⟩ :=
      hs.inside_iff.2 ⟨x, after, by simpa using htext, hfirst, hlast⟩
    exact ⟨hstands, hstart, hstop, hbrace, hline⟩

theorem read_enclosed {after : List Char} (hbrace : '}' ∉ inner) (hline : '\n' ∉ trim inner) :
    read ('$' :: '{' :: (inner ++ '}' :: after)) = some (enclosing inner after) :=
  read_eq_some_iff.2 ⟨inner, after, hbrace, hline, rfl, rfl⟩

/-- What is found is the first inline expression of the range. -/
theorem searchIn?_eq_some_iff (hs : Stands source start (slice start stop source) stop)
    {s : Extent} :
    searchIn? source start stop = some s ↔
      ∃ inner, InlineAt source start stop s.start inner ∧
        (∀ first inner', InlineAt source start stop first inner' → s.start ≤ first) ∧
        s = span s.start inner := by
  rw [searchIn?_eq, findIn?, find?_eq_firstPlace, Option.map_eq_some_iff]
  constructor
  · rintro ⟨⟨before, i⟩, hfound, rfl⟩
    obtain ⟨y, htext, hy, hleast⟩ := firstPlace_eq_some_iff.1 hfound
    obtain ⟨inner, after, hbrace, hline, rfl, rfl⟩ := read_eq_some_iff.1 hy
    refine ⟨inner, (inlineAt_iff hs).2 ⟨before, after, htext, rfl, hbrace, hline⟩, ?_,
      inlineExtent_enclosing _ _ _⟩
    -- an earlier one would have been read
    intro first inner' hat
    obtain ⟨x, after', htext', rfl, hbrace', hline'⟩ := (inlineAt_iff hs).1 hat
    refine Nat.add_le_add_left (Nat.not_lt.1 fun hlt => ?_) start
    have hlength := (utf8Length_lt_iff ⟨_, htext'.symm⟩ ⟨_, htext.symm⟩).1 hlt
    exact nomatch (read_enclosed hbrace' hline').symm.trans (hleast x _ htext'.symm hlength)
  · rintro ⟨inner, hat, hleast, he⟩
    obtain ⟨x, after, htext, hfirst, hbrace, hline⟩ := (inlineAt_iff hs).1 hat
    refine ⟨(x, enclosing inner after), firstPlace_eq_some_iff.2
      ⟨_, htext, read_enclosed hbrace hline, fun x' z hxz hlength => ?_⟩, ?_⟩
    · -- what is read earlier stands in the range earlier
      cases hz : read z with
      | none => rfl
      | some i =>
        obtain ⟨inner', after', hbrace', hline', rfl, -⟩ := read_eq_some_iff.1 hz
        have hle := hleast _ inner'
          ((inlineAt_iff hs).2 ⟨x', after', hxz.symm, rfl, hbrace', hline'⟩)
        have hlt := (utf8Length_lt_iff ⟨_, hxz⟩ ⟨_, htext.symm⟩).2 hlength
        omega
    · rw [inlineExtent_enclosing, ← hfirst, ← he]

theorem searchIn?_eq_none_iff (hs : Stands source start (slice start stop source) stop) :
    searchIn? source start stop = none ↔
      ∀ first inner, ¬ InlineAt source start stop first inner := by
  constructor
  · intro hnone first inner hat
    obtain ⟨x, after, htext, -, hbrace, hline⟩ := (inlineAt_iff hs).1 hat
    rw [searchIn?_eq, findIn?, find?_eq_firstPlace, Option.map_eq_none_iff] at hnone
    have hy := firstPlace_eq_none_iff.1 hnone _ ⟨x, htext.symm⟩
    exact nomatch (read_enclosed hbrace hline).symm.trans hy
  · intro h
    refine Option.eq_none_iff_forall_ne_some.2 fun s hfound => ?_
    obtain ⟨inner, hat, -⟩ := (searchIn?_eq_some_iff hs).1 hfound
    exact h s.start inner hat

/-- The search by the pattern returns the first inline expression of a range of a source: the first
place where the text up to the next closing brace, without the white space at its ends, has no line
feed. It finds nothing if there is no such place. -/
theorem searchIn?_first (hstart : IsBoundary source start) (hstop : IsBoundary source stop)
    (hle : start ≤ stop) :
    searchIn? source start stop =
        (findIn? source start stop).map (fun p => inlineExtent p.2 (start + utf8Length p.1)) ∧
      (∀ s, searchIn? source start stop = some s ↔
        ∃ inner, InlineAt source start stop s.start inner ∧
          (∀ first inner', InlineAt source start stop first inner' → s.start ≤ first) ∧
          s = span s.start inner) ∧
      (searchIn? source start stop = none ↔
        ∀ first inner, ¬ InlineAt source start stop first inner) ∧
      ∀ s, searchIn? source start stop = some s →
        '}' ∉ s.content ∧ '\n' ∉ s.content ∧ trim s.content = s.content := by
  have hs := stands_slice hstart hstop hle
  refine ⟨searchIn?_eq source start stop, fun s => searchIn?_eq_some_iff hs,
    searchIn?_eq_none_iff hs, fun s h => ?_⟩
  obtain ⟨inner, hat, -, he⟩ := (searchIn?_eq_some_iff hs).1 h
  rw [he]
  exact ⟨fun hm => hat.noBrace (mem_of_mem_trim hm), hat.noLineFeed, trim_trim inner⟩

/-- A source whose first opening brace is followed by a line feed. -/
def broken : List Char :=
  ['é', '$', '{', 'a', '\n', 'b', '}', '$', '{', ' ', 'x', '}', '}']

/-- The search passes over an opening brace whose expression would hold a line feed. -/
theorem searchIn?_broken :
    IsBoundary broken 2 ∧ IsBoundary broken 14 ∧ 2 ≤ 14 ∧
      searchIn? broken 2 14 = some (span 8 [' ', 'x']) ∧
      (∀ first inner, InlineAt broken 2 14 first inner → 8 ≤ first) ∧
      trim [' ', 'x'] = ['x'] := by
  have hstart : IsBoundary broken 2 := ⟨['é'], ⟨_, rfl⟩, rfl⟩
  have hstop : IsBoundary broken 14 := ⟨broken, ⟨[], rfl⟩, rfl⟩
  obtain ⟨heq, hsome, -⟩ := searchIn?_first hstart hstop (by decide)
  have hfound : searchIn? broken 2 14 = some (span 8 [' ', 'x']) := heq.trans (by decide)
  obtain ⟨_, -, hleast, -⟩ := (hsome _).1 hfound
  exact ⟨hstart, hstop, by decide, hfound, hleast, by decide⟩

end

end Stencil.Markup.Inline
