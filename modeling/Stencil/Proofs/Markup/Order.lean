import Mathlib.Data.Prod.Lex
import Mathlib.Order.Monotone.Defs
import Stencil.Proofs.Markup.Locality
import Stencil.Proofs.Markup.Location

/-!
# Locations follow the order of the blocks

The blocks of a template in document order (`preorder`: a container comes before the blocks of its
body) begin at places that follow each other (`locations_of_parse`). In bytes this is so because
every text that is read stands behind what was read before; also the line terminator that trimming
has cut off from a body stands behind the rest of the body (`Trimmed.exists_gap`).

In lines and columns it is so because a line feed begins a greater line and any other character
takes a column, however many bytes it has (`Location.lineColumn_strictMonoOn`).
-/

namespace Stencil.Markup

open Stencil.Text

/-! ## Lines and columns -/

namespace Location

/-- Line and column. Places are compared by their lines first. -/
def lineColumn (l : Location) : ℕ ×ₗ ℕ := toLex (l.line, l.column)

theorem lineColumn_lt_advance (l : Location) (c : Char) :
    l.lineColumn < (l.advance c).lineColumn := by
  rw [lineColumn, lineColumn, Prod.Lex.toLex_lt_toLex, advance]
  split
  · exact .inl (Nat.lt_succ_self _)
  · exact .inr ⟨rfl, Nat.lt_succ_self _⟩

theorem lineColumn_le_after (l : Location) (cs : List Char) :
    l.lineColumn ≤ (l.after cs).lineColumn := by
  induction cs generalizing l with
  | nil => exact le_rfl
  | cons c cs ih => exact (l.lineColumn_lt_advance c).le.trans (ih _)

theorem lineColumn_lt_after {cs : List Char} (h : cs ≠ []) (l : Location) :
    l.lineColumn < (l.after cs).lineColumn := by
  cases cs with
  | nil => exact absurd rfl h
  | cons c cs => exact (l.lineColumn_lt_advance c).trans_le (lineColumn_le_after _ cs)

/-- Of two places between characters of a source the later one has the greater line, or the same
line and the greater column. -/
theorem lineColumn_strictMonoOn (source : List Char) :
    StrictMonoOn (fun n => (ofOffset source n).lineColumn) {n | IsBoundary source n} := by
  rintro _ ⟨x, hx, rfl⟩ _ ⟨y, hy, rfl⟩ hlt
  obtain ⟨z, rfl⟩ := isPrefix_of_utf8Length_le hx hy (Nat.le_of_lt hlt)
  obtain ⟨rest, rfl⟩ := hy
  have hz : z ≠ [] := by
    rintro rfl
    simp at hlt
  dsimp only
  rw [ofOffset_utf8Length, List.append_assoc, ofOffset_utf8Length, after_append]
  exact lineColumn_lt_after hz _

end Location

/-! ## Blocks in document order -/

mutual

/-- A block and the blocks of its body. -/
def blockPreorder : Block → List Block
  | .loop l variableName collection attributes raw body =>
    .loop l variableName collection attributes raw body :: preorder body
  | .cond l condition attributes raw body => .cond l condition attributes raw body :: preorder body
  | .static l raw body => .static l raw body :: preorder body
  | block => [block]

/-- The blocks in document order, each one before the blocks of its body. -/
def preorder : List Block → List Block
  | [] => []
  | block :: blocks => blockPreorder block ++ preorder blocks

end

section

variable {blocks others : List Block} {block : Block}

@[simp] theorem preorder_nil : preorder [] = [] := by rw [preorder]

@[simp] theorem preorder_cons :
    preorder (block :: blocks) = block :: (preorder block.body ++ preorder blocks) := by
  cases block <;> simp [preorder, blockPreorder, Block.body]

@[simp] theorem preorder_append :
    preorder (blocks ++ others) = preorder blocks ++ preorder others := by
  induction blocks with
  | nil => simp
  | cons block blocks ih => simp [ih]

theorem sizeOf_body_lt (block : Block) (blocks : List Block) :
    sizeOf block.body < sizeOf (block :: blocks) := by
  cases block <;> simp [Block.body] <;> omega

theorem mem_preorder_of_mem {outer : Block} (ho : outer ∈ blocks)
    (h : block ∈ outer :: preorder outer.body) : block ∈ preorder blocks := by
  obtain ⟨before, after, rfl⟩ := List.append_of_mem ho
  rw [preorder_append, preorder_cons, ← List.cons_append]
  exact List.mem_append_right _ (List.mem_append_left _ h)

/-- In document order stand all blocks, however deep in bodies. -/
theorem mem_preorder_iff : block ∈ preorder blocks ↔ ∃ depth, Nested blocks depth block := by
  constructor
  · intro h
    induction hn : sizeOf blocks using Nat.strongRecOn generalizing blocks with
    | ind n ih =>
      subst hn
      cases blocks with
      | nil => simp at h
      | cons outer blocks =>
        rw [preorder_cons, List.mem_cons, List.mem_append] at h
        rcases h with rfl | h | h
        · exact ⟨0, .here List.mem_cons_self⟩
        · obtain ⟨depth, hd⟩ := ih _ (sizeOf_body_lt outer blocks) h rfl
          exact ⟨depth + 1, .inside List.mem_cons_self hd⟩
        · obtain ⟨depth, hd⟩ := ih _ (by simp only [List.cons.sizeOf_spec]; omega) h rfl
          exact ⟨depth, nested_cons.2 (.inr (.inr hd))⟩
  · rintro ⟨depth, h⟩
    induction h with
    | here h => exact mem_preorder_of_mem h List.mem_cons_self
    | inside ho _ ih => exact mem_preorder_of_mem ho (List.mem_cons_of_mem _ ih)

/-- The places at which the blocks begin, in document order. -/
def locations (blocks : List Block) : List Location := (preorder blocks).map Block.location

@[simp] theorem locations_nil : locations [] = [] := by simp [locations]

@[simp] theorem locations_cons :
    locations (block :: blocks) =
      block.location :: (locations block.body ++ locations blocks) := by
  simp [locations]

@[simp] theorem locations_append :
    locations (blocks ++ others) = locations blocks ++ locations others := by
  simp [locations]

end

/-! ## Places that follow each other -/

/-- Each of the locations is that of a place between characters of the source. The first one comes
at `start` at the earliest and each further one behind the one before, all of them before `stop`. -/
inductive Ascending (source : List Char) : Nat → Nat → List Location → Prop
  | nil {start stop : Nat} (h : start ≤ stop) : Ascending source start stop []
  | cons {start stop : Nat} {l : Location} {ls : List Location}
    (hb : IsBoundary source l.offset) (hl : Location.ofOffset source l.offset = l)
    (hstart : start ≤ l.offset) (hr : Ascending source (l.offset + 1) stop ls) :
    Ascending source start stop (l :: ls)

namespace Ascending

variable {source : List Char} {start mid stop : Nat} {ls ms : List Location}

theorem of_le (h : Ascending source mid stop ls) (hle : start ≤ mid) :
    Ascending source start stop ls := by
  cases h with
  | nil h => exact .nil (Nat.le_trans hle h)
  | cons hb hl hstart hr => exact .cons hb hl (Nat.le_trans hle hstart) hr

theorem append (h : Ascending source start mid ls) (h' : Ascending source mid stop ms) :
    Ascending source start stop (ls ++ ms) := by
  induction h with
  | nil h => exact h'.of_le h
  | cons hb hl hstart _ ih => exact .cons hb hl hstart (ih h')

theorem le (h : Ascending source start stop ls) : start ≤ stop := by
  induction h with
  | nil h => exact h
  | cons _ _ hstart _ ih => exact Nat.le_trans hstart (Nat.le_of_succ_le ih)

theorem mem (h : Ascending source start stop ls) {l : Location} (hm : l ∈ ls) :
    start ≤ l.offset ∧ l.offset < stop ∧ IsBoundary source l.offset ∧
      Location.ofOffset source l.offset = l := by
  induction h with
  | nil => cases hm
  | cons hb hl hstart hr ih =>
    rcases List.mem_cons.1 hm with rfl | hm
    · exact ⟨hstart, hr.le, hb, hl⟩
    · obtain ⟨hlater, hrest⟩ := ih hm
      exact ⟨by omega, hrest⟩

/-- What follows in bytes follows in lines and columns. -/
theorem pairwise (h : Ascending source start stop ls) :
    ls.Pairwise fun l m => l.offset < m.offset ∧ l.lineColumn < m.lineColumn := by
  induction h with
  | nil => exact .nil
  | cons hb hl _ hr ih =>
    refine .cons (fun m hm => ?_) ih
    obtain ⟨hlt, -, hb', hm'⟩ := hr.mem hm
    have hlines := Location.lineColumn_strictMonoOn source hb hb' hlt
    dsimp only at hlines
    rw [hl, hm'] at hlines
    exact ⟨hlt, hlines⟩

end Ascending

/-! ## The blocks of a text -/

section

variable {o : ParseOptions} {depth stop last : Nat} {here : Location} {source cs x : List Char}
  {k : Construct} {blocks rest : List Block} {block : Block}

theorem StandsAt.ascending_nil (hs : StandsAt source here x stop) :
    Ascending source here.offset stop (locations []) := by
  have := hs.stop_eq
  exact locations_nil ▸ .nil (by omega)

theorem StandsAt.ascending (hs : StandsAt source here x stop) :
    Ascending source here.offset stop (locations (textBlock here x)) := by
  have hstop := hs.stop_eq
  unfold textBlock
  split
  · exact hs.ascending_nil
  · rename_i hne
    have hx : x ≠ [] := by simpa using hne
    have hpos := utf8Length_pos hx
    rw [locations_cons]
    simp only [Block.body, locations_nil, List.append_nil]
    exact .cons hs.stands.isBoundary.1 hs.ofOffset_eq (Nat.le_refl _) (.nil (by
      simp only [Block.location]
      omega))

/-- The blocks of a body and the tail that trimming has cut off from it. -/
theorem ascending_trimmed {cut : Trimmed} {there : Location} {body : List Block}
    (hs : StandsAt source there cut.whole last)
    (hmain : ∀ last, StandsAt source (there.after cut.lead) cut.main last →
      Ascending source (there.after cut.lead).offset last (locations body)) :
    Ascending source there.offset last
      (locations (body ++ textBlock (there.after cut.beforeTail) cut.tail)) := by
  obtain ⟨gap, hwhole, htail⟩ := cut.exists_gap
  rw [hwhole, List.append_assoc, List.append_assoc] at hs
  have hbehind := hs.right.right
  have hbody := hmain _ hs.right.left
  rw [locations_append]
  refine (hbody.of_le ?_).append ?_
  · rw [Location.offset_after]
    exact Nat.le_add_right _ _
  · by_cases ht : cut.tail = []
    · rw [ht, textBlock, List.isEmpty_nil, if_pos rfl]
      exact hbehind.ascending_nil
    · rw [htail ht, Location.after_append, Location.after_append]
      refine hbehind.right.ascending.of_le ?_
      rw [Location.offset_after _ gap]
      exact Nat.le_add_right _ _

/-- A construct behind the text before it: the blocks of its body begin behind its opening. -/
theorem ascending_construct (hn : Construct.next here cs = .ok (some k))
    (hs : StandsAt source here cs stop) (hl : block.location = k.location here)
    (hbody : Ascending source (k.bodyLocation here).offset last (locations block.body))
    (hlast : last ≤ (k.afterLocation here).offset)
    (hrest : Ascending source (k.afterLocation here).offset stop (locations rest)) :
    Ascending source here.offset stop (locations (textBlock here k.before ++ block :: rest)) := by
  obtain ⟨htext, hopening⟩ := Construct.next_eq hn
  rw [htext, List.append_assoc] at hs
  have hopens : (k.location here).offset + 1 ≤ (k.bodyLocation here).offset := by
    rw [Construct.bodyLocation, Location.offset_after]
    exact Nat.add_le_add_left (utf8Length_pos hopening) _
  rw [locations_append, locations_cons, hl]
  refine hs.left.ascending.append (.cons hs.right.stands.isBoundary.1 hs.right.ofOffset_eq
    (Nat.le_refl _) ?_)
  exact (hbody.of_le hopens).append (hrest.of_le hlast)

/-- The body of a construct stands between its opening and its end, and the rest of the text behind
it. -/
theorem Construct.standsAt (hn : next here cs = .ok (some k)) (hs : StandsAt source here cs stop) :
    (∃ last, last ≤ (k.afterLocation here).offset ∧
      StandsAt source (k.bodyLocation here) k.body last) ∧
    StandsAt source (k.afterLocation here) k.after stop := by
  rw [(next_eq hn).1, List.append_assoc] at hs
  have hextent := hs.right.left
  rw [extent, List.append_assoc] at hextent
  have hclosing := hextent.right.right.stop_eq
  refine ⟨⟨_, ?_, hextent.right.left⟩, hs.right.right⟩
  rw [afterLocation, extent, List.append_assoc]
  exact hclosing ▸ Nat.le_add_right _ _

/-- The blocks of a text that stands in a source begin in the range of the text, one behind the
other. -/
theorem Parses.ascending (h : Parses o depth here cs blocks)
    (hs : StandsAt source here cs stop) :
    Ascending source here.offset stop (locations blocks) := by
  induction h generalizing stop with
  | plain => exact hs.ascending
  | inline hn _ _ ih =>
    obtain ⟨⟨last, hlast, hbody⟩, hafter⟩ := Construct.standsAt hn hs
    exact ascending_construct hn hs rfl hbody.ascending_nil hlast (ih hafter)
  | inclusion hn _ hb _ ih =>
    obtain ⟨⟨last, hlast, hbody⟩, hafter⟩ := Construct.standsAt hn hs
    obtain ⟨resource, rfl⟩ := readInclusion_inv hb
    exact ascending_construct hn hs rfl hbody.ascending_nil hlast (ih hafter)
  | @container _ here _ k _ header body rest hn _ _ _ _ _ _ ihb ih =>
    obtain ⟨⟨last, hlast, hbody⟩, hafter⟩ := Construct.standsAt hn hs
    rw [← o.whole_trimming k.body] at hbody
    refine ascending_construct hn hs (by simp) ?_ hlast (ih hafter)
    rw [Header.body_block]
    exact ascending_trimmed hbody fun last hmain => ihb hmain

/-- The blocks of a template in document order: they begin at places that follow each other, in
bytes as well as in lines and columns. Each location is that of its byte offset, and it is the one
that counting the line feeds before the offset gives. No two blocks have the same line and column,
and in general line and column determine the byte offset of a place between characters. -/
theorem locations_of_parse {template : String} (h : parse o template = .ok blocks) :
    ((locations blocks).Pairwise fun l m =>
      l.offset < m.offset ∧ l.lineColumn < m.lineColumn) ∧
    (∀ depth block, Nested blocks depth block →
      block.location.offset < template.utf8ByteSize ∧
        IsBoundary template.toList block.location.offset ∧
        block.location = Location.ofOffset template.toList block.location.offset ∧
        Scanner.location? template.toList block.location.offset = some block.location) ∧
    ((locations blocks).map Location.lineColumn).Nodup ∧
    ∀ m n, IsBoundary template.toList m → IsBoundary template.toList n →
      (Location.ofOffset template.toList m).lineColumn =
        (Location.ofOffset template.toList n).lineColumn → m = n := by
  have hasc := (parses_of_parseBlocks h).ascending (standsAt_all template.toList)
  refine ⟨hasc.pairwise, fun depth block hn => ?_, ?_, fun m n hm hn he => ?_⟩
  · have hm := List.mem_map_of_mem (f := Block.location) (mem_preorder_iff.2 ⟨depth, hn⟩)
    obtain ⟨-, hlt, hb, hl⟩ := hasc.mem hm
    rw [utf8Length_toList] at hlt
    refine ⟨hlt, hb, hl.symm, ?_⟩
    rw [Scanner.location?_eq (isBoundary_iff.2 hb), hl]
  · rw [List.Nodup, List.pairwise_map]
    exact hasc.pairwise.imp fun hlt => hlt.2.ne
  · exact (Location.lineColumn_strictMonoOn template.toList).injOn hm hn he

end

/-- A condition of which trimming drops the first line and the spaces at the end. -/
def winding : String := "é<if cond:'x'> \nü<static>ß</static>  \n</if>$\x7b a \x7d"

/-- The blocks of `winding`. The line feed that was cut off comes behind the static block. -/
def windingBlocks : List Block :=
  [.text ⟨1, 1, 0⟩ "é",
    .cond ⟨1, 2, 2⟩ "x" [("cond", "x")] "ü<static>ß</static>\n"
      [.text ⟨2, 1, 17⟩ "ü", .static ⟨2, 2, 19⟩ "ß" [.text ⟨2, 10, 27⟩ "ß"],
        .text ⟨2, 22, 40⟩ "\n"],
    .inline ⟨3, 6, 46⟩ "a"]

theorem locations_winding :
    parse ⟨64, true⟩ winding = .ok windingBlocks ∧
      locations windingBlocks =
        [⟨1, 1, 0⟩, ⟨1, 2, 2⟩, ⟨2, 1, 17⟩, ⟨2, 2, 19⟩, ⟨2, 10, 27⟩, ⟨2, 22, 40⟩, ⟨3, 6, 46⟩] ∧
      (locations windingBlocks).Pairwise (fun l m =>
        l.offset < m.offset ∧ l.lineColumn < m.lineColumn) ∧
      Nested windingBlocks 2 (.text ⟨2, 10, 27⟩ "ß") ∧
      Scanner.location? winding.toList 27 = some ⟨2, 10, 27⟩ := by
  have hblocks : parse ⟨64, true⟩ winding = .ok windingBlocks :=
    eq_ok_of_toOption (by decide +kernel)
  have hlocations : locations windingBlocks =
      [⟨1, 1, 0⟩, ⟨1, 2, 2⟩, ⟨2, 1, 17⟩, ⟨2, 2, 19⟩, ⟨2, 10, 27⟩, ⟨2, 22, 40⟩, ⟨3, 6, 46⟩] := by
    decide
  have hnested : Nested windingBlocks 2 (.text ⟨2, 10, 27⟩ "ß") :=
    .inside (List.mem_cons_of_mem _ List.mem_cons_self)
      (.inside (List.mem_cons_of_mem _ List.mem_cons_self) (.here List.mem_cons_self))
  obtain ⟨hpairwise, hnest, -⟩ := locations_of_parse hblocks
  exact ⟨hblocks, hlocations, hpairwise, hnested, (hnest _ _ hnested).2.2.2⟩

end Stencil.Markup
