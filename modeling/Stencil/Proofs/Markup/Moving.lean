import Stencil.Proofs.Markup.Closing

/-!
# A text read at another place

What a text is read as does not depend on the place where it stands (`Parses.move`): its blocks are
the same at any other place and any other depth that leaves room for them, only their locations are
moved along (`Block.mapLocation`). What cannot be read fails alike at any other place (`relocate`).
`Carries f here there cs` says that `f` takes the locations that occur in the text `cs` at `here` to
those that occur in it at `there`.
-/

namespace Stencil.Markup

open Stencil.Text

/-! ## Moved blocks -/

mutual

/-- The block with every location in it, those in its body included, replaced. -/
def Block.mapLocation (f : Location → Location) : Block → Block
  | .text l content => .text (f l) content
  | .inline l expression => .inline (f l) expression
  | .loop l variableName collection attributes raw body =>
    .loop (f l) variableName collection attributes raw (mapLocations f body)
  | .cond l condition attributes raw body =>
    .cond (f l) condition attributes raw (mapLocations f body)
  | .static l raw body => .static (f l) raw (mapLocations f body)
  | .inclusion l resource attributes => .inclusion (f l) resource attributes

/-- The blocks with every location in them replaced. -/
def mapLocations (f : Location → Location) : List Block → List Block
  | [] => []
  | block :: blocks => block.mapLocation f :: mapLocations f blocks

end

section

variable (f : Location → Location) (blocks others : List Block)

@[simp] theorem mapLocations_append :
    mapLocations f (blocks ++ others) = mapLocations f blocks ++ mapLocations f others := by
  induction blocks with
  | nil => rfl
  | cons block blocks ih => simp [mapLocations, ih]

@[simp] theorem mapLocations_textBlock (l : Location) (cs : List Char) :
    mapLocations f (textBlock l cs) = textBlock (f l) cs := by
  unfold textBlock
  split <;> rfl

@[simp] theorem mapLocation_block (header : Header) (place : Location) (attributes : Attributes)
    (raw : String) :
    (header.block place attributes raw blocks).mapLocation f =
      header.block (f place) attributes raw (mapLocations f blocks) := by
  cases header <;> rfl

@[simp] theorem nesting_append :
    nesting (blocks ++ others) = max (nesting blocks) (nesting others) := by
  induction blocks with
  | nil => simp [nesting]
  | cons block blocks ih => simp [nesting, ih, Nat.max_assoc]

@[simp] theorem nesting_textBlock (l : Location) (cs : List Char) :
    nesting (textBlock l cs) = 0 := by
  unfold textBlock
  split <;> rfl

@[simp] theorem blockNesting_block (header : Header) (place : Location) (attributes : Attributes)
    (raw : String) :
    blockNesting (header.block place attributes raw blocks) = nesting blocks + 1 := by
  cases header <;> rfl

end

/-! ## Moved errors -/

/-- The error at another place. -/
def MarkupError.mapLocation (f : Location → Location) : MarkupError → MarkupError
  | .malformedTag tag fault l => .malformedTag tag fault (f l)
  | .missingAttribute wanted tag l => .missingAttribute wanted tag (f l)
  | .depthExceeded limit l => .depthExceeded limit (f l)

/-- What is read at another place: an error is moved along. -/
def relocate {α : Type} (f : Location → Location) : Except MarkupError α → Except MarkupError α :=
  Except.mapError (·.mapLocation f)

section

variable {α β : Type} (f : Location → Location)

@[simp] theorem relocate_ok (a : α) : relocate f (.ok a : Except MarkupError α) = .ok a := rfl

@[simp] theorem relocate_error (e : MarkupError) :
    relocate f (.error e : Except MarkupError α) = .error (e.mapLocation f) := rfl

@[simp] theorem relocate_map (g : α → β) (r : Except MarkupError α) :
    relocate f (r.map g) = (relocate f r).map g := by
  cases r <;> rfl

end

/-! ## Texts at another place -/

/-- The function takes each location in the text `cs`, where it begins at `here`, to the location of
the same character where the text begins at `there`. -/
def Carries (f : Location → Location) (here there : Location) (cs : List Char) : Prop :=
  ∀ x, x <+: cs → f (here.after x) = there.after x

section

variable {f : Location → Location} {here there : Location} {cs x y : List Char}

theorem Carries.begin (h : Carries f here there cs) : f here = there := h [] List.nil_prefix

theorem Carries.of_isPrefix (h : Carries f here there cs) (hx : x <+: cs) :
    Carries f here there x :=
  fun y hy => h y (hy.trans hx)

theorem Carries.left (h : Carries f here there (x ++ y)) : Carries f here there x :=
  h.of_isPrefix (List.prefix_append x y)

theorem Carries.right (h : Carries f here there (x ++ y)) :
    Carries f (here.after x) (there.after x) y := by
  intro z hz
  rw [← Location.after_append, ← Location.after_append]
  exact h (x ++ z) ((List.prefix_append_right_inj x).2 hz)

/-- The body of a construct in the text. -/
theorem Carries.body {k : Construct} (h : Carries f here there cs)
    (hn : Construct.next here cs = .ok (some k)) :
    Carries f (k.bodyLocation here) (k.bodyLocation there) k.body := by
  rw [(Construct.next_eq hn).1, List.append_assoc] at h
  have hextent := h.right.left
  rw [Construct.extent, List.append_assoc] at hextent
  exact hextent.right.left

/-- In a source, the locations of a text are those of its byte offsets, moved by the length of what
stands before it. -/
theorem carries_ofOffset (before after : List Char) :
    Carries (fun l => Location.ofOffset (before ++ cs ++ after) (utf8Length before + l.offset))
      Location.start (Location.start.after before) cs := by
  rintro x ⟨y, rfl⟩
  dsimp only
  have hoffset : (Location.start.after x).offset = utf8Length x := by
    rw [Location.offset_after, Location.start, Nat.zero_add]
  have hsource : before ++ (x ++ y) ++ after = before ++ x ++ (y ++ after) := by simp
  rw [hoffset, Location.ofOffset, hsource, ← utf8Length_append, takeBytes_utf8Length,
    Location.after_append]

end

/-- A text at two places that have nothing to do with each other. -/
theorem carries_takeBytes (here there : Location) (cs : List Char) :
    Carries (fun l => there.after (takeBytes (l.offset - here.offset) cs)) here there cs := by
  rintro x ⟨y, rfl⟩
  dsimp only
  rw [Location.offset_after, Nat.add_sub_cancel_left, takeBytes_utf8Length]

/-! ## Constructs at another place -/

section

variable {f : Location → Location} {here there : Location} {cs : List Char}

/-- The search for a closing tag has the same outcome at any place, with its errors moved along. -/
theorem findCloser_relocate {t : Tag} {owner other : Location} {pending : Nat}
    (hf : Carries f here there cs) (ho : f owner = other) :
    findCloser t other pending there cs = relocate f (findCloser t owner pending here cs) := by
  fun_induction findCloser t owner pending here cs generalizing there with
  | case1 pending here cs hs =>
    rw [findCloser]
    split
    · rw [relocate_error, MarkupError.mapLocation, ho]
    · simp_all
  | case2 pending here cs before after hs lead rest hr hopen =>
    have hlead : lead <+: cs := by
      rw [splitAtWord_eq hs, Tag.find?_eq hr]
      simp
    rw [findCloser_openEnded hs hr hopen, relocate_error, MarkupError.mapLocation, hf lead hlead]
  | case3 pending here cs before after hs lead rest hr inner tail hopen _ ih =>
    have hcs : cs = lead ++ t.openTag inner ++ tail := by
      have hopen := splitOpening_eq hopen
      rw [splitAtWord_eq hs, Tag.find?_eq hr]
      simp only [List.append_assoc] at hopen ⊢
      rw [hopen]
      simp [Tag.openTag]
    rw [hcs] at hf
    rw [findCloser_nested hs hr hopen, ih hf.right, relocate_map]
    rfl
  | case4 here cs before after hs hr =>
    rw [findCloser_zero hs hr, relocate_ok]
  | case5 here cs before after hs hr pending _ ih =>
    rw [splitAtWord_eq hs] at hf
    rw [findCloser_succ hs hr, ih hf.right, relocate_map]
    rfl

theorem Construct.next_relocate (hf : Carries f here there cs) :
    next there cs = relocate f (next here cs) := by
  unfold next
  split
  · rfl
  · rfl
  · rename_i before t rest hh
    have hcs := (findHead_eq hh).1
    rw [Head.whole] at hcs
    rw [hcs] at hf
    have hplace : f (here.after before) = there.after before := hf.right.begin
    rw [relocate_map, ofTag, ofTag]
    refine congrArg (Except.map some) ?_
    dsimp only
    cases hs : splitOpening false rest with
    | none => rw [relocate_error, MarkupError.mapLocation, hplace]
    | some p =>
      obtain ⟨inner, tail⟩ := p
      have hrest : t.opener ++ rest = t.openTag inner ++ tail := by
        rw [splitOpening_eq hs]
        simp [Tag.openTag]
      rw [hrest] at hf
      dsimp only
      split
      · rfl
      · rw [findCloser_relocate hf.right.right hplace, relocate_map]

/-- A construct that is found is found at any place. -/
theorem Construct.next_move {found : Option Construct} (h : next here cs = .ok found) :
    next there cs = .ok found := by
  rw [next_relocate (carries_takeBytes here there cs), h, relocate_ok]

theorem required_relocate (k : Construct) (t : Tag) (place : Location) (name : String) :
    required k t (f place) name = relocate f (required k t place name) := by
  unfold required
  split <;> rfl

theorem readHeader_relocate (k : Construct) (t : Tag) (place : Location) :
    readHeader k t (f place) = relocate f (readHeader k t place) := by
  unfold readHeader
  simp only [required_relocate]
  split
  · cases required k .loop place "var" with
    | error e => rfl
    | ok variableName =>
      cases required k .loop place "in" with
      | error e => rfl
      | ok collection =>
        simp only [relocate_ok]
        split <;> rfl
  · rw [relocate_map]
  · rfl

theorem readInclusion_relocate (k : Construct) (place : Location) :
    readInclusion k (f place) =
      relocate f ((readInclusion k place).map (Block.mapLocation f)) := by
  unfold readInclusion
  rw [required_relocate]
  cases required k .inclusion place Block.resourceName <;> rfl

end

/-! ## Blocks at another place -/

/-- What a text is read as at one place, it is read as at any other, one that lets its containers
nest as deep. -/
theorem Parses.move {o o' : ParseOptions} {depth depth' : Nat} {here there : Location}
    {cs : List Char} {blocks : List Block} {f : Location → Location}
    (h : Parses o depth here cs blocks) (ho : o'.trimBodies = o.trimBodies)
    (hd : depth' + nesting blocks ≤ o'.maxDepth) (hf : Carries f here there cs) :
    Parses o' depth' there cs (mapLocations f blocks) := by
  have htrim (body : List Char) : o'.trimming body = o.trimming body := by
    rw [ParseOptions.trimming, ParseOptions.trimming, ho]
  induction h generalizing depth' there with
  | plain hn =>
    rw [mapLocations_textBlock, hf.begin]
    exact .plain (Construct.next_move hn)
  | @inline _ here cs k rest hn hk _ ih =>
    simp only [nesting_append, nesting] at hd
    rw [(Construct.next_eq hn).1, List.append_assoc] at hf
    have hrest : Parses o' depth' (k.afterLocation there) k.after (mapLocations f rest) :=
      ih (by omega) hf.right.right
    have hplace : f (k.location here) = k.location there := hf.right.begin
    rw [mapLocations_append, mapLocations_textBlock, mapLocations, Block.mapLocation, hf.begin,
      hplace]
    exact .inline (Construct.next_move hn) hk hrest
  | @inclusion _ here cs k block rest hn hk hb _ ih =>
    simp only [nesting_append, nesting] at hd
    rw [(Construct.next_eq hn).1, List.append_assoc] at hf
    have hrest : Parses o' depth' (k.afterLocation there) k.after (mapLocations f rest) :=
      ih (by omega) hf.right.right
    have hplace : f (k.location here) = k.location there := hf.right.begin
    have hb : readInclusion k (k.location there) = .ok (block.mapLocation f) := by
      rw [← hplace, readInclusion_relocate, hb]
      rfl
    rw [mapLocations_append, mapLocations_textBlock, mapLocations, hf.begin]
    exact .inclusion (Construct.next_move hn) hk hb hrest
  | @container _ here cs k t header body rest hn hk ht hh _ _ _ ihb ih =>
    simp only [nesting_append, nesting, blockNesting_block, nesting_textBlock] at hd
    have hbody := hf.body hn
    rw [(Construct.next_eq hn).1, List.append_assoc] at hf
    have hrest : Parses o' depth' (k.afterLocation there) k.after (mapLocations f rest) :=
      ih (by omega) hf.right.right
    have hplace : f (k.location here) = k.location there := hf.right.begin
    -- What trimming leaves to be read begins behind the lead; the tail begins behind the spaces.
    have hmain := hbody.of_isPrefix (o.whole_trimming k.body ▸ Trimmed.lead_append_main_isPrefix _)
    have htail := hbody _ (o.whole_trimming k.body ▸ Trimmed.beforeTail_isPrefix _)
    rw [mapLocations_append, mapLocations_textBlock, mapLocations, mapLocation_block,
      mapLocations_append, mapLocations_textBlock, hf.begin, hplace, htail, ← htrim]
    have hh : readHeader k t (k.location there) = .ok header := by
      rw [← hplace, readHeader_relocate, hh, relocate_ok]
    refine .container (Construct.next_move hn) hk ht hh (by omega) ?_ hrest
    rw [htrim]
    exact ihb (by omega) hmain.right

end Stencil.Markup
