import Stencil.Text.Numeric

/-!
# Identifiers

A loop variable is an identifier: an alphabetic character or a low line, followed by alphanumeric
characters and low lines.
-/

namespace Stencil.Markup

open Stencil.Text

/-- Whether a text is an identifier. -/
def isIdentifier : List Char → Bool
  | [] => false
  | c :: cs => (isAlphabetic c || c = '_') && cs.all fun d => isAlphanumeric d || d = '_'

end Stencil.Markup
