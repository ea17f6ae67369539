import Stencil.Proofs.Markup.Printer
import Stencil.Proofs.Markup.Reading

/-!
# Blocks tile the text they were read from

Reading loses no text and reads none twice (`tiles_of_parse`): the blocks of a template stand in it
one behind the other, from its first byte to its last, and so do the blocks of each body between the
opening and the closing tag of their container. `Tiles source start stop blocks` says what stands in
the range of each block.

This is about templates that are read without trimming, which drops parts of bodies.
-/

namespace Stencil.Markup

open Stencil.Text

/-! ## Ranges of a source -/

/-- The text `cs` stands in `source` from the byte offset `start` up to the byte offset `stop`. -/
def Stands (source : List Char) (start : Nat) (cs : List Char) (stop : Nat) : Prop :=
  ∃ before after, source = before ++ cs ++ after ∧ utf8Length before = start ∧
    start + utf8Length cs = stop

section

variable {source cs x y : List Char} {start stop : Nat}

theorem stands_all (source : List Char) : Stands source 0 source (utf8Length source) :=
  ⟨[], [], by simp, rfl, Nat.zero_add _⟩

/-- What stands in a range is the slice of the range. -/
theorem Stands.slice_eq (h : Stands source start cs stop) : slice start stop source = cs := by
  obtain ⟨before, after, rfl, rfl, rfl⟩ := h
  rw [← utf8Length_append, slice_append]

theorem Stands.append (h : Stands source start (x ++ y) stop) :
    Stands source start x (start + utf8Length x) ∧
      Stands source (start + utf8Length x) y stop := by
  obtain ⟨before, after, rfl, rfl, rfl⟩ := h
  refine ⟨⟨before, y ++ after, by simp, rfl, rfl⟩, before ++ x, after, by simp, by simp, ?_⟩
  rw [utf8Length_append, Nat.add_assoc]

end

/-! ## What stands in the range of a block -/

/-- The blocks stand in `source` one behind the other, the first from `start` and the last up to
`stop`, and no two texts are neighbours. -/
inductive Tiles (source : List Char) : Nat → Nat → List Block → Prop
  | nil {start : Nat} : Tiles source start start []
  /-- A text is what stands in its range, which is not empty. -/
  | text {start mid stop : Nat} {l : Location} {content : String} {rest : List Block}
    (hs : Stands source start content.toList mid) (hne : content ≠ "") (hl : l.offset = start)
    (hnext : ∀ next ∈ rest.head?, isText next = false) (hr : Tiles source mid stop rest) :
    Tiles source start stop (.text l content :: rest)
  /-- An inline expression stands between its braces. -/
  | inline {start mid stop : Nat} {l : Location} {expression : String} {inner : List Char}
    {rest : List Block} (hs : Stands source start ('$' :: '{' :: (inner ++ ['}'])) mid)
    (he : trim inner = expression.toList) (hl : l.offset = start)
    (hr : Tiles source mid stop rest) :
    Tiles source start stop (.inline l expression :: rest)
  /-- A tag that owns no body or closes itself is its opening tag. -/
  | single {start mid stop : Nat} {block : Block} {t : Tag} {inner : List Char}
    {rest : List Block} (ht : block.tag? = some t) (hi : IsInner inner)
    (hc : t.isContainer = false ∨ isSelfClosing inner = true)
    (hs : Stands source start (t.openTag inner) mid) (hl : block.location.offset = start)
    (hraw : block.rawBody = "") (hbody : block.body = []) (hr : Tiles source mid stop rest) :
    Tiles source start stop (block :: rest)
  /-- A container is its opening tag, its raw body, in which the blocks of its body stand, and its
  closing tag. -/
  | container {start first last mid stop : Nat} {block : Block} {t : Tag} {inner : List Char}
    {rest : List Block} (ht : block.tag? = some t) (hi : IsInner inner)
    (hcontainer : t.isContainer = true) (hc : isSelfClosing inner = false)
    (hopen : Stands source start (t.openTag inner) first)
    (hraw : Stands source first block.rawBody.toList last)
    (hclose : Stands source last t.closer mid) (hl : block.location.offset = start)
    (hbody : Tiles source first last block.body) (hr : Tiles source mid stop rest) :
    Tiles source start stop (block :: rest)

/-! ## Headers and inclusions -/

section

variable (header : Header) (place : Location) (attributes : Attributes) (raw : String)
  (body : List Block)

@[simp] theorem Header.location_block :
    (header.block place attributes raw body).location = place := by
  cases header <;> rfl

@[simp] theorem Header.rawBody_block :
    (header.block place attributes raw body).rawBody = raw := by
  cases header <;> rfl

@[simp] theorem Header.body_block : (header.block place attributes raw body).body = body := by
  cases header <;> rfl

@[simp] theorem Header.isText_block :
    isText (header.block place attributes raw body) = false := by
  cases header <;> rfl

end

/-- The header of a tag makes a block with this tag. -/
theorem Header.tag?_block {k : Construct} {t : Tag} {place : Location} {header : Header}
    (h : readHeader k t place = .ok header) (ht : t.isContainer = true) (attributes : Attributes)
    (raw : String) (body : List Block) :
    (header.block place attributes raw body).tag? = some t := by
  unfold readHeader at h
  split at h
  · split at h
    · cases h
    · cases h
    · dsimp only at h
      split at h
      · cases h
        rfl
      · cases h
  · obtain ⟨condition, -, rfl⟩ := map_eq_ok_iff.1 h
    rfl
  · rename_i hloop hcond
    cases h
    cases t with
    | static => rfl
    | loop => exact absurd rfl hloop
    | cond => exact absurd rfl hcond
    | inclusion => cases ht

theorem readInclusion_inv {k : Construct} {place : Location} {block : Block}
    (h : readInclusion k place = .ok block) :
    ∃ resource, block = .inclusion place resource k.attributes := by
  obtain ⟨resource, -, rfl⟩ := map_eq_ok_iff.1 h
  exact ⟨_, rfl⟩

/-! ## Readings tile -/

section

variable {o : ParseOptions} {depth : Nat} {here : Location} {cs source : List Char}
  {blocks rest : List Block} {mid stop : Nat}

theorem Tiles.textBlock_append {x : List Char} (hs : Stands source here.offset x mid)
    (hnext : ∀ next ∈ rest.head?, isText next = false) (hr : Tiles source mid stop rest) :
    Tiles source here.offset stop (textBlock here x ++ rest) := by
  cases x with
  | nil =>
    obtain ⟨-, -, -, -, rfl⟩ := hs
    exact hr
  | cons c x => exact .text (by simpa using hs) (by simp) rfl hnext hr

/-- The first construct of a text stands between the text before it and the text after it. -/
theorem Construct.stands {k : Construct} (hn : Construct.next here cs = .ok (some k))
    (hs : Stands source here.offset cs stop) :
    Stands source here.offset k.before (k.location here).offset ∧
      Stands source (k.location here).offset k.extent (k.afterLocation here).offset ∧
      Stands source (k.afterLocation here).offset k.after stop := by
  rw [(next_eq hn).1, List.append_assoc] at hs
  obtain ⟨hbefore, hs⟩ := hs.append
  obtain ⟨hextent, hafter⟩ := hs.append
  simp only [location, afterLocation, Location.offset_after]
  exact ⟨hbefore, hextent, hafter⟩

/-- The pieces of a construct stand one behind the other. -/
theorem Construct.stands_pieces {k : Construct}
    (hs : Stands source (k.location here).offset k.extent stop) :
    Stands source (k.location here).offset k.opening (k.bodyLocation here).offset ∧
      ∃ last, Stands source (k.bodyLocation here).offset k.body last ∧
        Stands source last k.closing stop := by
  rw [extent, List.append_assoc] at hs
  obtain ⟨hopening, hs⟩ := hs.append
  obtain ⟨hbody, hclosing⟩ := hs.append
  rw [bodyLocation, Location.offset_after]
  exact ⟨hopening, _, hbody, hclosing⟩

/-- The blocks of a text that stands in a source tile the range of the text. -/
theorem Parses.tiles (ho : o.trimBodies = false) (h : Parses o depth here cs blocks)
    (hs : Stands source here.offset cs stop) : Tiles source here.offset stop blocks := by
  induction h generalizing stop with
  | @plain _ here cs =>
    have hnil : Tiles source stop stop [] := .nil
    rw [← List.append_nil (textBlock here cs)]
    exact .textBlock_append hs nofun hnil
  | @inline _ here _ k _ hn hk _ ih =>
    obtain ⟨hbefore, hextent, hafter⟩ := Construct.stands hn hs
    obtain ⟨inner, hinner, htrim⟩ := Construct.extent_of_inline hn hk
    rw [hinner] at hextent
    refine .textBlock_append hbefore (by rintro _ ⟨⟩; rfl) ?_
    exact .inline hextent (by simpa using htrim) rfl (ih hafter)
  | @inclusion _ here _ k _ _ hn hk hb _ ih =>
    obtain ⟨hbefore, hextent, hafter⟩ := Construct.stands hn hs
    obtain ⟨resource, rfl⟩ := readInclusion_inv hb
    refine .textBlock_append hbefore (by rintro _ ⟨⟩; rfl) ?_
    obtain ⟨inner, hinner, hopening, ⟨hc, hbody, hclosing⟩ | ⟨ht, -⟩⟩ :=
      Construct.pieces_of_tag hn hk
    · have htag : k.extent = Tag.inclusion.openTag inner := by
        simp [Construct.extent, hopening, hbody, hclosing]
      rw [htag] at hextent
      exact .single rfl hinner hc hextent rfl rfl rfl (ih hafter)
    · cases ht
  | @container _ here _ k t _ _ _ hn hk ht hheader _ hb _ ihb ih =>
    obtain ⟨hbefore, hextent, hafter⟩ := Construct.stands hn hs
    have htag := Header.tag?_block hheader ht
    simp only [ParseOptions.trimming_of_not_trimBodies ho, Trimmed.lead_untouched,
      Trimmed.main_untouched, Trimmed.kept_untouched, Trimmed.tail_untouched,
      Location.after_nil] at hb ihb ⊢
    refine .textBlock_append hbefore (by rintro _ ⟨⟩; simp) ?_
    obtain ⟨inner, hinner, hopening, ⟨hc, hbody, hclosing⟩ | ⟨-, hself, hclosing⟩⟩ :=
      Construct.pieces_of_tag hn hk
    · have hsingle : k.extent = t.openTag inner := by
        simp [Construct.extent, hopening, hbody, hclosing]
      rw [hsingle] at hextent
      rw [hbody] at hb
      exact .single (htag _ _ _) hinner hc hextent (by simp) (by simp [hbody])
        (by simp [hb.eq_nil, textBlock]) (ih hafter)
    · obtain ⟨hopens, last, hbody, hcloses⟩ := Construct.stands_pieces hextent
      rw [hopening] at hopens
      rw [hclosing] at hcloses
      refine .container (htag _ _ _) hinner ht hself hopens (by simpa using hbody) hcloses
        (by simp) ?_ (ih hafter)
      simpa [textBlock] using ihb hbody

/-- The blocks of a template tile it from its first byte to its last, those of a body the range of
the body. -/
theorem tiles_of_parse {source : String} (ho : o.trimBodies = false)
    (h : parse o source = .ok blocks) : Tiles source.toList 0 source.utf8ByteSize blocks := by
  rw [← utf8Length_toList]
  exact (parses_of_parseBlocks h).tiles ho (stands_all _)

end

/-- A comparison in quotes, a static block that closes itself and a character of two bytes. -/
def greeting : String := "Hi ${ name }<if cond:'n > 1'>s<static/></if>é"

/-- The blocks of `greeting`. -/
def greetingBlocks : List Block :=
  [.text ⟨1, 1, 0⟩ "Hi ", .inline ⟨1, 4, 3⟩ "name",
    .cond ⟨1, 13, 12⟩ "n > 1" [("cond", "n > 1")] "s<static/>"
      [.text ⟨1, 30, 29⟩ "s", .static ⟨1, 31, 30⟩ "" []],
    .text ⟨1, 45, 44⟩ "é"]

theorem tiles_greeting : ({} : ParseOptions).trimBodies = false ∧
    parse {} greeting = .ok greetingBlocks ∧
      Tiles greeting.toList 0 greeting.utf8ByteSize greetingBlocks := by
  have h : parse {} greeting = .ok greetingBlocks := eq_ok_of_toOption (by decide +kernel)
  exact ⟨rfl, h, tiles_of_parse rfl h⟩

end Stencil.Markup
