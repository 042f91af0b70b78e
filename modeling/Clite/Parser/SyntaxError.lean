import Clite.Token

/-!
# Syntax errors

What the parser finds fault with, and the words in which it says so.
-/

namespace Clite

inductive SyntaxError where
  /-- another token than the one that the construct `context` needs here -/
  | unexpected (expected : TokenKind) (context : String) (found : Token)
  | expectedStatement (found : Token)
  | expectedPrimary (found : Token)
  | expectedType (found : Token)
  /-- a literal that denotes no value of its type -/
  | invalidLiteral (literal : TokenKind) (text : String) (place : Position)
  | nestingTooDeep (limit : Nat) (place : Position)
  deriving DecidableEq, Repr

namespace SyntaxError

def message : SyntaxError → String
  | unexpected expected context found =>
    "Expected " ++ expected.text ++ " in " ++ context ++ ", found " ++ found.text
  | expectedStatement found => "Expected statement, found " ++ found.text
  | expectedPrimary found => "Expected primary expression, found " ++ found.text
  | expectedType found => "Expected type, found " ++ found.text
  | invalidLiteral literal text _ => "Invalid " ++ literal.text ++ " literal `" ++ text ++ "`"
  | nestingTooDeep limit _ => "Nesting deeper than " ++ toString limit ++ " levels"

/-- Where the error was found. -/
def position : SyntaxError → Position
  | unexpected _ _ found | expectedStatement found | expectedPrimary found | expectedType found =>
    found.position
  | invalidLiteral _ _ place | nestingTooDeep _ place => place

end SyntaxError

end Clite
