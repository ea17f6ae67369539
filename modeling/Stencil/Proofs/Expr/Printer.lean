import Stencil.Expr.Lexer
import Stencil.Value.Display

/-!
# Printing of expressions

`Expr.print` writes a tree down as text. Every unary and binary node stands in parentheses, so that
the levels of the operators decide nothing; the items of an array are separated by `, ` and a binary
operator stands between spaces. Strings are written in quotes, single or double ones, as `Quoting`
chooses for each string.

`Expr.Printable` says of a tree that its literals and names have a text in the language: there are
no negative integers, and no name is a keyword. That such a tree is read back from what is printed
is shown in `Stencil.Proofs.Expr.RoundTrip`.
-/

namespace Stencil

/-! ## Strings -/

/-- The quotes that a string can be written in. -/
inductive Quote where
  | single
  | double
deriving Repr, DecidableEq

namespace Quote

/-- The character of a quote. -/
def mark : Quote → Char
  | single => '\x27'
  | double => '"'

/-- A character between quotes: a backslash before the quote and before a backslash. -/
def escapeChar (quote : Quote) (c : Char) : List Char :=
  if c = quote.mark ∨ c = '\\' then ['\\', c] else [c]

/-- A string up to and with its closing quote. -/
def close (quote : Quote) (cs : List Char) : List Char :=
  cs.flatMap quote.escapeChar ++ [quote.mark]

@[simp] theorem close_nil (quote : Quote) : quote.close [] = [quote.mark] := rfl

@[simp] theorem close_cons (quote : Quote) (c : Char) (cs : List Char) :
    quote.close (c :: cs) = quote.escapeChar c ++ quote.close cs := by
  simp [close]

end Quote

/-- The choice of quotes for each string. -/
abbrev Quoting := String → Quote

namespace Expr

/-! ## Expressions -/

/-- The text of a literal. -/
def printLiteral (quoting : Quoting) : Value → List Char
  | .null => ['n', 'u', 'l', 'l']
  | .str s => (quoting s).mark :: (quoting s).close s.toList
  | v => v.display.toList

/-- The properties after a name, each behind a dot. -/
def printProperties : List String → List Char
  | [] => []
  | name :: names => '.' :: (name.toList ++ printProperties names)

/-- The text of a path. -/
def printPath : List String → List Char
  | [] => []
  | name :: names => name.toList ++ printProperties names

section

variable (quoting : Quoting)

mutual

/-- The text of an expression. -/
def print : Expr → List Char
  | literal v => printLiteral quoting v
  | path names => printPath names
  | array items => '[' :: (printItems items ++ [']'])
  | unary op e => '(' :: ((op.symbol.toList ++ print e) ++ [')'])
  | binary op l r =>
    '(' :: ((print l ++ [' '] ++ (op.symbol.toList ++ ' ' :: print r)) ++ [')'])

/-- The texts of the items of an array, with commas between them. -/
def printItems : List Expr → List Char
  | [] => []
  | [item] => print item
  | item :: next :: items => print item ++ (',' :: ' ' :: printItems (next :: items))

end

end

/-! ## Which expressions have a text -/

/-- A name that is no keyword: a letter or an underscore, and letters, digits and underscores. -/
def IsIdentifier (name : String) : Prop :=
  (∃ c cs, name.toList = c :: cs ∧ Token.beginsIdentifier c = true ∧
    ∀ d ∈ cs, Token.continuesIdentifier d = true) ∧
  name ∉ ["true", "false", "null"]

/-- A literal that is one token: null, a truth value, an integer that is not negative or a
string. -/
def IsLiteral : Value → Prop
  | .null => True
  | .bool _ => True
  | .int n => 0 ≤ n
  | .str _ => True
  | _ => False

mutual

/-- All literals and names of an expression have a text. -/
def Printable : Expr → Prop
  | literal v => IsLiteral v
  | path names => names ≠ [] ∧ ∀ name ∈ names, IsIdentifier name
  | array items => PrintableItems items
  | unary _ e => Printable e
  | binary _ l r => Printable l ∧ Printable r

/-- The same of all items of an array. -/
def PrintableItems : List Expr → Prop
  | [] => True
  | item :: items => Printable item ∧ PrintableItems items

end

end Expr

end Stencil
