/-!
# Patterns

A pattern describes pieces of text. It matches the beginning of a text in several ways, and the ways
have an order of preference: a choice prefers its first branch, a greedy repetition prefers to go on
and a reluctant one to stop. The preferred way that lets the rest of a search succeed is the one
that counts.

* `Pattern.ways` lists the ways in which one pattern matches, the preferred one first, and
  `Pattern.waysAll` those of several patterns one after the other, each with its own piece of text;
* `Pattern.search` finds the first place where patterns match, and `Pattern.searchAll` finds all
  matches that do not overlap, from the beginning on.
-/

namespace Stencil.Text

/-- Patterns over characters. -/
inductive Pattern where
  /-- A character with a property. -/
  | one (p : Char → Bool)
  /-- One pattern behind another. -/
  | seq (p q : Pattern)
  /-- One of two patterns, the first one preferred. -/
  | alt (p q : Pattern)
  /-- A pattern any number of times, as often as possible if `greedy`, else as seldom. -/
  | many (greedy : Bool) (p : Pattern)

/-- A way in which patterns match one after the other. -/
structure Match where
  /-- What each of the patterns takes. -/
  pieces : List (List Char)
  /-- The text after the last piece. -/
  rest : List Char

/-- The text before the first place where `read` succeeds, and what it returns there. -/
def firstPlace {α : Type} (read : List Char → Option α) : List Char → Option (List Char × α)
  | [] => (read []).map ([], ·)
  | c :: cs =>
    match read (c :: cs) with
    | some a => some ([], a)
    | none => (firstPlace read cs).map fun p => (c :: p.1, p.2)

namespace Pattern

/-- A certain character. -/
def char (c : Char) : Pattern := one (· = c)

/-- A pattern at least once, as often as possible. -/
def plus (p : Pattern) : Pattern := seq p (many true p)

/-- The ways to repeat a step. A step that takes nothing is not repeated. -/
def repeated (greedy : Bool) (step : List Char → List (List Char × List Char)) (cs : List Char) :
    List (List Char × List Char) :=
  let more := (step cs).flatMap fun m =>
    if m.2.length < cs.length then
      (repeated greedy step m.2).map fun n => (m.1 ++ n.1, n.2)
    else []
  if greedy then more ++ [([], cs)] else ([], cs) :: more
termination_by cs.length

/-- The ways in which a pattern matches the beginning of a text: the piece it takes and the text
after it. -/
def ways : Pattern → List Char → List (List Char × List Char)
  | one _, [] => []
  | one p, c :: cs => if p c then [([c], cs)] else []
  | seq p q, cs => (p.ways cs).flatMap fun m => (q.ways m.2).map fun n => (m.1 ++ n.1, n.2)
  | alt p q, cs => p.ways cs ++ q.ways cs
  | many greedy p, cs => repeated greedy p.ways cs

/-- The ways in which patterns match one after the other at the beginning of a text. -/
def waysAll : List Pattern → List Char → List Match
  | [], cs => [⟨[], cs⟩]
  | p :: ps, cs =>
    (p.ways cs).flatMap fun m => (waysAll ps m.2).map fun n => ⟨m.1 :: n.pieces, n.rest⟩

/-- The preferred way in which patterns match at the beginning of a text. -/
def first (ps : List Pattern) (cs : List Char) : Option Match := (waysAll ps cs).head?

/-- The text before the first place where patterns match, and the preferred way there. -/
def search (ps : List Pattern) (cs : List Char) : Option (List Char × Match) :=
  firstPlace (first ps) cs

/-- The places where patterns match, each searched for behind the one before: the text before each
of them with the pieces there, and the text behind the last one. The search ends at a match that
takes nothing. -/
def searchAll (ps : List Pattern) (cs : List Char) :
    List (List Char × List (List Char)) × List Char :=
  match search ps cs with
  | none => ([], cs)
  | some (before, m) =>
    if m.rest.length < cs.length then
      let more := searchAll ps m.rest
      ((before, m.pieces) :: more.1, more.2)
    else ([], cs)
termination_by cs.length

end Pattern

end Stencil.Text
