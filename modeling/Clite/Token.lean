import Clite.Operator
import Clite.Position

/-!
# Tokens

The vocabulary of the language.  A keyword is a reserved word; every other word is an identifier.
-/

namespace Clite

inductive TokenKind where
  | endOfFile
  /-- `int`, `char`, `float` or `bool` -/
  | typeName (type : Ty)
  /-- `true` or `false` -/
  | truth (value : Bool)
  | ifWord
  | elseWord
  | whileWord
  | mainWord
  | leftBrace
  | rightBrace
  | leftBracket
  | rightBracket
  | leftParen
  | rightParen
  | semicolon
  | comma
  | assign
  /-- a binary operator; the one for subtraction is also the sign of negation -/
  | operator (op : BinaryOp)
  /-- `!` -/
  | bang
  | identifier
  | intLiteral
  | floatLiteral
  | charLiteral
  deriving DecidableEq, Repr

namespace TokenKind

/-- The canonical text: what is written for a word or symbol, a class name for the others. -/
def text : TokenKind → String
  | endOfFile => "<EOF>"
  | typeName type => type.text
  | truth true => "true"
  | truth false => "false"
  | ifWord => "if"
  | elseWord => "else"
  | whileWord => "while"
  | mainWord => "main"
  | leftBrace => "\x7b"
  | rightBrace => "\x7d"
  | leftBracket => "["
  | rightBracket => "]"
  | leftParen => "("
  | rightParen => ")"
  | semicolon => ";"
  | comma => ","
  | assign => "="
  | operator op => op.text
  | bang => "!"
  | identifier => "IDENT"
  | intLiteral => "INT"
  | floatLiteral => "FLOAT"
  | charLiteral => "CHAR"

/-- The reserved words. -/
def reserved : List TokenKind :=
  [typeName .bool, typeName .char, elseWord, truth false, typeName .float, ifWord, typeName .int, mainWord,
    truth true, whileWord]

/-- The kind of a word: the keyword it spells, or an identifier. -/
def ofWord (word : String) : TokenKind := (reserved.find? (·.text = word)).getD identifier

def isKeyword (k : TokenKind) : Bool := k ∈ reserved

def isOperator : TokenKind → Bool
  | operator _ | bang => true
  | _ => false

def isLiteral : TokenKind → Bool
  | intLiteral | floatLiteral | charLiteral => true
  | _ => false

def isTypeName : TokenKind → Bool
  | typeName _ => true
  | _ => false

/-- Does a token of this kind show its lexeme when it is printed? -/
def showsLexeme : TokenKind → Bool
  | identifier | intLiteral | floatLiteral | charLiteral => true
  | _ => false

/-- The lexeme of an operator or of punctuation: operators and `=` carry their text, other punctuation nothing. -/
def symbolLexeme (k : TokenKind) : String := if k.isOperator || k = assign then k.text else ""

/-- The type that a type name names. -/
def type? : TokenKind → Option Ty
  | typeName type => some type
  | _ => none

def binaryOp? : TokenKind → Option BinaryOp
  | operator op => some op
  | _ => none

/-- The prefix operator that a token stands for before an operand. -/
def prefixOp? : TokenKind → Option UnaryOp
  | bang => some .not
  | operator .sub => some .negate
  | _ => none

end TokenKind

structure Token where
  position : Position
  kind : TokenKind
  lexeme : String
  deriving DecidableEq, Repr

namespace Token

def endOfFile (position : Position) : Token := ⟨position, .endOfFile, ""⟩

/-- The kind, with the lexeme where the kind does not tell it. -/
def text (t : Token) : String :=
  if t.kind.showsLexeme then t.kind.text ++ " `" ++ t.lexeme ++ "`" else t.kind.text

end Token

end Clite
