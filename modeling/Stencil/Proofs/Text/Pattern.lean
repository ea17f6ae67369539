import Mathlib.Data.List.TakeWhile
import Stencil.Text.Pattern

/-!
# What patterns find

The ways of a pattern are tried in their order until the rest of the search succeeds (`choose`).
There is one equation for each kind of pattern (`choose_seq`, `choose_alt`, `choose_many`).

* A greedy repetition of a character takes the longest run of it whenever a shorter one could not
  succeed alone (`choose_run`), in particular if the search cannot go on at such a character
  (`choose_run_of_stop`).
* The first place where something is read is the first one where it can be read at all
  (`firstPlace_eq_some_iff`, `firstPlace_eq_none_iff`).
* The pieces of a match and the text around it make up the text (`eq_of_search`).
-/

namespace Stencil.Text

/-! ## The first place -/

section

variable {α : Type} {read : List Char → Option α} {cs before : List Char} {a : α}

theorem firstPlace_cons (read : List Char → Option α) (c : Char) (cs : List Char) :
    firstPlace read (c :: cs) =
      ((read (c :: cs)).map ([], ·)).or
        ((firstPlace read cs).map fun p => (c :: p.1, p.2)) := by
  rw [firstPlace]
  cases read (c :: cs) <;> rfl

theorem firstPlace_map {β : Type} (f : α → β) (cs : List Char) :
    firstPlace (fun ds => (read ds).map f) cs =
      (firstPlace read cs).map fun p => (p.1, f p.2) := by
  induction cs with
  | nil =>
    rw [firstPlace, firstPlace]
    cases read [] <;> rfl
  | cons c cs ih =>
    rw [firstPlace_cons, firstPlace_cons, ih, Option.map_or]
    simp only [Option.map_map]
    rfl

/-- Nothing is found in a text if nothing is read at any of its places. -/
theorem firstPlace_eq_none_iff : firstPlace read cs = none ↔ ∀ y, y <:+ cs → read y = none := by
  induction cs with
  | nil => simp [firstPlace, List.suffix_nil]
  | cons c cs ih =>
    rw [firstPlace_cons, Option.or_eq_none_iff, Option.map_eq_none_iff, Option.map_eq_none_iff, ih]
    constructor
    · rintro ⟨hc, hcs⟩ y hy
      rcases List.suffix_cons_iff.1 hy with rfl | hy
      · exact hc
      · exact hcs y hy
    · intro h
      exact ⟨h _ List.suffix_rfl, fun y hy => h y (hy.trans (List.suffix_cons c cs))⟩

/-- What is found is read at its place, and nothing is read at the places before. -/
theorem firstPlace_eq_some_iff :
    firstPlace read cs = some (before, a) ↔ ∃ y, cs = before ++ y ∧ read y = some a ∧
      ∀ x z, x ++ z = cs → x.length < before.length → read z = none := by
  induction cs generalizing before with
  | nil =>
    rw [firstPlace, Option.map_eq_some_iff]
    constructor
    · rintro ⟨b, hb, he⟩
      cases he
      exact ⟨[], rfl, hb, fun x z _ hx => absurd hx (Nat.not_lt_zero _)⟩
    · rintro ⟨y, hy, hread, -⟩
      obtain ⟨rfl, rfl⟩ := List.append_eq_nil_iff.1 hy.symm
      exact ⟨_, hread, rfl⟩
  | cons c cs ih =>
    rw [firstPlace_cons, Option.or_eq_some_iff, Option.map_eq_some_iff, Option.map_eq_none_iff,
      Option.map_eq_some_iff]
    constructor
    · rintro (⟨b, hb, he⟩ | ⟨hnone, ⟨before', b⟩, hs, he⟩)
      · cases he
        exact ⟨_, rfl, hb, fun x z _ hx => absurd hx (Nat.not_lt_zero _)⟩
      · cases he
        obtain ⟨y, hy, hread, hleast⟩ := ih.1 hs
        refine ⟨y, by rw [hy, List.cons_append], hread, fun x z hxz hx => ?_⟩
        cases x with
        | nil => exact (List.nil_append z).symm.trans hxz ▸ hnone
        | cons d x =>
          exact hleast x z (List.cons.inj hxz).2 (Nat.lt_of_succ_lt_succ hx)
    · rintro ⟨y, hy, hread, hleast⟩
      cases before with
      | nil =>
        rw [List.nil_append] at hy
        exact .inl ⟨_, hy ▸ hread, rfl⟩
      | cons d before =>
        obtain ⟨rfl, hcs⟩ := List.cons.inj hy
        refine .inr ⟨hleast [] _ rfl (Nat.zero_lt_succ _), (before, a), ?_, rfl⟩
        exact ih.2 ⟨y, hcs, hread, fun x z hxz hx =>
          hleast (c :: x) z (by rw [List.cons_append, hxz]) (Nat.succ_lt_succ hx)⟩

end

/-! ## The ways of a pattern -/

namespace Pattern

variable {α : Type} {p q : Pattern} {ps : List Pattern} {cs : List Char}
  {k : List Char → List Char → Option α}

/-- The result of the first way of a pattern for which the rest of the search has one. -/
def choose (p : Pattern) (k : List Char → List Char → Option α) (cs : List Char) : Option α :=
  (p.ways cs).findSome? fun m => k m.1 m.2

theorem findSome?_flatMap {β γ : Type} (l : List β) (f : β → List γ) (g : γ → Option α) :
    (l.flatMap f).findSome? g = l.findSome? fun b => (f b).findSome? g := by
  induction l with
  | nil => rfl
  | cons b l ih =>
    rw [List.flatMap_cons, List.findSome?_append, ih, List.findSome?_cons]
    cases (f b).findSome? g <;> rfl

theorem choose_one_nil (p : Char → Bool) : choose (one p) k [] = none := rfl

theorem choose_one_cons (p : Char → Bool) (c : Char) :
    choose (one p) k (c :: cs) = if p c then k [c] cs else none := by
  rw [choose, ways]
  split
  · cases hk : k [c] cs <;> simp [hk]
  · rfl

theorem choose_seq :
    choose (seq p q) k cs = choose p (fun x ds => choose q (fun y => k (x ++ y)) ds) cs := by
  simp only [choose, ways, findSome?_flatMap, List.findSome?_map]
  rfl

theorem choose_alt : choose (alt p q) k cs = (choose p k cs).or (choose q k cs) :=
  List.findSome?_append

/-- The repetitions that go on, in the order of what is left to them. -/
theorem choose_many (greedy : Bool) :
    choose (many greedy p) k cs =
      let more := choose p (fun x ds =>
        if ds.length < cs.length then choose (many greedy p) (fun y => k (x ++ y)) ds else none) cs
      if greedy then more.or (k [] cs) else (k [] cs).or more := by
  have hmore : ((p.ways cs).flatMap fun m => if m.2.length < cs.length then
        (repeated greedy p.ways m.2).map fun n => (m.1 ++ n.1, n.2) else []).findSome?
          (fun m => k m.1 m.2) =
      choose p (fun x ds =>
        if ds.length < cs.length then choose (many greedy p) (fun y => k (x ++ y)) ds
        else none) cs := by
    rw [findSome?_flatMap, choose]
    refine congrArg (List.findSome? · _) (funext fun m => ?_)
    split
    · rw [List.findSome?_map]
      rfl
    · rfl
  have hstop : [(([] : List Char), cs)].findSome? (fun m => k m.1 m.2) = k [] cs := by
    cases hk : k [] cs <;> simp [hk]
  rw [choose, ways, repeated]
  cases greedy with
  | true => simp only [if_true, List.findSome?_append, hmore, hstop]
  | false =>
    simp only [Bool.false_eq_true, if_false]
    rw [← List.singleton_append, List.findSome?_append, hmore, hstop]

theorem first_nil : first [] cs = some ⟨[], cs⟩ := rfl

theorem first_cons :
    first (p :: ps) cs =
      choose p (fun x ds => (first ps ds).map fun m => ⟨x :: m.pieces, m.rest⟩) cs := by
  simp only [first, waysAll, List.head?_flatMap, List.head?_map]
  rfl

theorem first_char_cons (c d : Char) :
    first (char c :: ps) (d :: cs) =
      if d = c then (first ps cs).map fun m => ⟨[d] :: m.pieces, m.rest⟩ else none := by
  rw [first_cons, char, choose_one_cons]
  simp only [decide_eq_true_eq]

/-! ## Runs of characters -/

section

variable {property other : Char → Bool} {c : Char} {greedy : Bool}

theorem choose_many_nil : choose (many greedy (one property)) k [] = k [] [] := by
  rw [choose_many]
  cases greedy <;> simp [choose_one_nil]

theorem choose_many_stop (h : property c = false) :
    choose (many greedy (one property)) k (c :: cs) = k [] (c :: cs) := by
  rw [choose_many]
  cases greedy <;> simp [choose_one_cons, h]

theorem choose_greedy_cons (h : property c = true) :
    choose (many true (one property)) k (c :: cs) =
      (choose (many true (one property)) (fun y => k (c :: y)) cs).or (k [] (c :: cs)) := by
  rw [choose_many]
  simp [choose_one_cons, h]

theorem choose_reluctant_cons (h : property c = true) :
    choose (many false (one property)) k (c :: cs) =
      (k [] (c :: cs)).or (choose (many false (one property)) (fun y => k (c :: y)) cs) := by
  rw [choose_many]
  simp [choose_one_cons, h]

/-- A character that both branches of a choice take leads to the same place twice. -/
theorem choose_many_alt :
    choose (many greedy (alt (one property) (one other))) k cs =
      choose (many greedy (one fun c => property c || other c)) k cs := by
  induction cs generalizing k with
  | nil =>
    rw [choose_many_nil, choose_many]
    cases greedy <;> simp [choose_alt, choose_one_nil]
  | cons c cs ih =>
    rw [choose_many, choose_many]
    simp only [choose_alt, choose_one_cons, ih]
    cases property c <;> cases other c <;> simp

/-- A greedy run is as long as possible, if the longest one fails only where the shorter ones do. -/
theorem choose_run
    (h : k (cs.takeWhile property) (cs.dropWhile property) = none → ∀ x y,
      x ++ y = cs.takeWhile property → k x (y ++ cs.dropWhile property) = none) :
    choose (many true (one property)) k cs =
      k (cs.takeWhile property) (cs.dropWhile property) := by
  induction cs generalizing k with
  | nil => exact choose_many_nil
  | cons c cs ih =>
    by_cases hc : property c = true
    · rw [List.takeWhile_cons_of_pos hc, List.dropWhile_cons_of_pos hc] at h ⊢
      have hrest : choose (many true (one property)) (fun y => k (c :: y)) cs =
          k (c :: cs.takeWhile property) (cs.dropWhile property) :=
        ih fun hk x y hxy => h hk (c :: x) y (by rw [List.cons_append, hxy])
      rw [choose_greedy_cons hc, hrest]
      cases hk : k (c :: cs.takeWhile property) (cs.dropWhile property) with
      | some a => rfl
      | none =>
        have hstop := h hk [] _ rfl
        rwa [List.cons_append, List.takeWhile_append_dropWhile] at hstop
    · rw [List.takeWhile_cons_of_neg hc, List.dropWhile_cons_of_neg hc]
      exact choose_many_stop (Bool.eq_false_iff.2 hc)

/-- A greedy run is as long as possible, if the search cannot go on at a character of the run. -/
theorem choose_run_of_stop (h : ∀ x c ds, property c = true → k x (c :: ds) = none) :
    choose (many true (one property)) k cs =
      k (cs.takeWhile property) (cs.dropWhile property) := by
  refine choose_run fun hk x y hxy => ?_
  cases y with
  | nil => rwa [← hxy, List.append_nil] at hk
  | cons d y =>
    have hd : d ∈ cs.takeWhile property := hxy ▸ List.mem_append_right x List.mem_cons_self
    exact h x d _ (List.mem_takeWhile_imp hd)

end

/-! ## All matches -/

theorem searchAll_of_none (h : search ps cs = none) : searchAll ps cs = ([], cs) := by
  rw [searchAll]
  split
  · rfl
  · rename_i hs
    cases h.symm.trans hs

theorem searchAll_of_some {before : List Char} {m : Match} (h : search ps cs = some (before, m))
    (hlt : m.rest.length < cs.length) :
    searchAll ps cs =
      ((before, m.pieces) :: (searchAll ps m.rest).1, (searchAll ps m.rest).2) := by
  rw [searchAll]
  split
  · rename_i hs
    cases h.symm.trans hs
  · rename_i hs
    cases h.symm.trans hs
    exact if_pos hlt

/-! ## No way loses text -/

theorem mem_repeated {greedy : Bool} {step : List Char → List (List Char × List Char)}
    {m : List Char × List Char} (h : m ∈ repeated greedy step cs) :
    m = ([], cs) ∨ ∃ x ∈ step cs, x.2.length < cs.length ∧
      ∃ y ∈ repeated greedy step x.2, (x.1 ++ y.1, y.2) = m := by
  rw [repeated] at h
  cases greedy <;> simp_all [or_comm]

theorem repeated_append {greedy : Bool} {step : List Char → List (List Char × List Char)}
    (hstep : ∀ ds, ∀ m ∈ step ds, m.1 ++ m.2 = ds) :
    ∀ m ∈ repeated greedy step cs, m.1 ++ m.2 = cs := by
  induction hn : cs.length using Nat.strongRecOn generalizing cs with
  | ind n ih =>
    subst hn
    intro m hm
    rcases mem_repeated hm with rfl | ⟨x, hx, hlt, y, hy, rfl⟩
    · rfl
    · rw [List.append_assoc, ih _ hlt rfl y hy, hstep cs x hx]

/-- A piece and the text after it are the text. -/
theorem ways_append (p : Pattern) (cs : List Char) : ∀ m ∈ p.ways cs, m.1 ++ m.2 = cs := by
  induction p generalizing cs with
  | one p =>
    intro m hm
    cases cs with
    | nil => cases hm
    | cons c cs =>
      rw [ways] at hm
      split at hm
      · obtain rfl := List.mem_singleton.1 hm
        rfl
      · cases hm
  | seq p q ihp ihq =>
    intro m hm
    obtain ⟨x, hx, hm⟩ := List.mem_flatMap.1 hm
    obtain ⟨y, hy, rfl⟩ := List.mem_map.1 hm
    rw [List.append_assoc, ihq x.2 y hy, ihp cs x hx]
  | alt p q ihp ihq =>
    intro m hm
    exact (List.mem_append.1 hm).elim (ihp cs m) (ihq cs m)
  | many greedy p ih => exact repeated_append ih

/-- The pieces and the text after them are the text. -/
theorem waysAll_append (ps : List Pattern) (cs : List Char) :
    ∀ m ∈ waysAll ps cs, m.pieces.flatten ++ m.rest = cs := by
  induction ps generalizing cs with
  | nil =>
    intro m hm
    obtain rfl := List.mem_singleton.1 hm
    rfl
  | cons p ps ih =>
    intro m hm
    obtain ⟨x, hx, hm⟩ := List.mem_flatMap.1 hm
    obtain ⟨y, hy, rfl⟩ := List.mem_map.1 hm
    rw [List.flatten_cons, List.append_assoc, ih x.2 y hy, ways_append p cs x hx]

theorem eq_of_search {before : List Char} {m : Match} (h : search ps cs = some (before, m)) :
    cs = before ++ (m.pieces.flatten ++ m.rest) := by
  obtain ⟨y, rfl, hy, -⟩ := firstPlace_eq_some_iff.1 h
  rw [waysAll_append ps y m (List.mem_of_mem_head? hy)]

end Pattern

end Stencil.Text
