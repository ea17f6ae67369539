import Stencil.Expr.Basic
import Stencil.Number.Layout
import Stencil.Value.Display

/-!
# Tokens of expressions

The words of the expression language, the errors in its texts, and the message of each error.
-/

namespace Stencil

/-- The kinds of tokens. -/
inductive TokenKind where
  | int (n : Int64)
  | float (x : Float)
  | str (s : String)
  | ident (name : String)
  | bool (b : Bool)
  | null
  | dot
  | comma
  | openParen
  | closeParen
  | openBracket
  | closeBracket
  | bang
  | op (o : BinaryOp)

/-- A token as it stands in a text. -/
structure Token where
  kind : TokenKind
  /-- The byte offset of its first character. -/
  position : Nat
  /-- The characters that it was read from. -/
  text : List Char

/-- Numbers in messages are written without an exponent part, integral ones without a point. -/
def messageLayout : Number.Layout where
  isPlain _ := true
  pointZero := false

namespace TokenKind

/-- How a token is called in a message. -/
def describe : TokenKind → String
  | int n => "number " ++ displayInt n
  | float x => "number " ++ messageLayout.text x
  | str s => "string '" ++ s ++ "'"
  | ident name => "identifier '" ++ name ++ "'"
  | bool true => "'true'"
  | bool false => "'false'"
  | null => "'null'"
  | dot => "'.'"
  | comma => "','"
  | openParen => "'('"
  | closeParen => "')'"
  | openBracket => "'['"
  | closeBracket => "']'"
  | bang => "'!'"
  | op o => "'" ++ o.symbol ++ "'"

end TokenKind

/-- What is wrong with the text of an expression. Where a token is out of place the fault carries
it, or nothing at the end of the text. -/
inductive SyntaxFault where
  | integerOutOfRange (digits : String)
  | unterminatedString
  | unexpectedCharacter (c : Char)
  | empty
  | trailing (found : Option TokenKind)
  | noOperand (found : Option TokenKind)
  | noProperty (found : Option TokenKind)
  | noItemEnd (found : Option TokenKind)
  | unclosedParen (found : Option TokenKind)
  | tooDeep

/-- A fault and the byte offset where it was found. -/
structure SyntaxError where
  position : Nat
  fault : SyntaxFault

/-- How what was found is called in a message. -/
def describeFound : Option TokenKind → String
  | some kind => kind.describe
  | none => "end of expression"

/-- The message of a fault. -/
def SyntaxFault.message : SyntaxFault → String
  | integerOutOfRange digits => "integer literal '" ++ digits ++ "' is out of range"
  | unterminatedString => "unterminated string literal"
  | unexpectedCharacter c => "unexpected character '" ++ String.singleton c ++ "'"
  | empty => "empty expression"
  | trailing found => "unexpected " ++ describeFound found ++ " after end of expression"
  | noOperand found => "expected an operand, found " ++ describeFound found
  | noProperty found => "expected a property name after '.', found " ++ describeFound found
  | noItemEnd found => "expected ',' or ']', found " ++ describeFound found
  | unclosedParen found => "expected ')', found " ++ describeFound found
  | tooDeep => "expression is nested too deeply"

end Stencil
