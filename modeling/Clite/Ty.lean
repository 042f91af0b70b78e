/-!
# The four types

The language has four scalar types and no others.  Two of them widen on assignment: an `int` may go where a
`float` is expected and a `char` where an `int` is.
-/

namespace Clite

inductive Ty where
  | int
  | char
  | float
  | bool
  deriving DecidableEq, Repr

namespace Ty

/-- All types, in the order of their declaration. -/
def all : List Ty := [int, char, float, bool]

def text : Ty → String
  | int => "int"
  | char => "char"
  | float => "float"
  | bool => "bool"

/-- The operand types of arithmetic and negation. -/
def isNumeric : Ty → Bool
  | int | float => true
  | char | bool => false

/-- May a value of type `source` be assigned to a variable of type `target`? -/
def accepts (target source : Ty) : Bool :=
  match target, source with
  | float, int => true
  | int, char => true
  | _, _ => target = source

end Ty

end Clite
