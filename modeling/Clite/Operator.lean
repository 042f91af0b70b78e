import Clite.Ty

/-!
# Operators

The binary operators fall into four classes by the types they take, and into six levels by how tightly they bind.
-/

namespace Clite

inductive BinaryOp where
  | add
  | sub
  | mul
  | div
  | less
  | lessEqual
  | greater
  | greaterEqual
  | equal
  | notEqual
  | and
  | or
  deriving DecidableEq, Repr

/-- What a binary operator asks of its operand types. -/
inductive OpClass where
  | arithmetic
  | relational
  | equality
  | boolean
  deriving DecidableEq, Repr

/-- How tightly a binary operator binds, loosest first. -/
inductive Level where
  | disjunction
  | conjunction
  | equality
  | relation
  | addition
  | term
  deriving DecidableEq, Repr

namespace BinaryOp

def text : BinaryOp → String
  | add => "+"
  | sub => "-"
  | mul => "*"
  | div => "/"
  | less => "<"
  | lessEqual => "<="
  | greater => ">"
  | greaterEqual => ">="
  | equal => "=="
  | notEqual => "!="
  | and => "&&"
  | or => "||"

def opClass : BinaryOp → OpClass
  | add | sub | mul | div => .arithmetic
  | less | lessEqual | greater | greaterEqual => .relational
  | equal | notEqual => .equality
  | and | or => .boolean

def level : BinaryOp → Level
  | or => .disjunction
  | and => .conjunction
  | equal | notEqual => .equality
  | less | lessEqual | greater | greaterEqual => .relation
  | add | sub => .addition
  | mul | div => .term

end BinaryOp

inductive UnaryOp where
  | not
  | negate
  /-- a conversion such as `float(x)` -/
  | convert (target : Ty)
  deriving DecidableEq, Repr

def UnaryOp.text : UnaryOp → String
  | not => "!"
  | negate => "-"
  | convert target => target.text

end Clite
