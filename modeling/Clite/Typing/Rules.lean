import Clite.Typing.TypeError

/-!
# Typing rules of the operators

For each operator the operand types it takes and the type of its result.  `checked` puts the two together over
operands whose type may be unknown: the result is known when the operands are and the operator takes them.
-/

namespace Clite

namespace BinaryOp

/-- The result type over operands of known type. -/
def result (op : BinaryOp) (left right : Ty) : Ty :=
  match op.opClass with
  | .arithmetic => if left = .float ∨ right = .float then .float else .int
  | .relational | .equality | .boolean => .bool

/-- Does the operator take operands of these types? -/
def takes (op : BinaryOp) (left right : Ty) : Bool :=
  match op.opClass with
  | .arithmetic => left.isNumeric && right.isNumeric
  | .relational | .equality => left = right
  | .boolean => left = .bool && right = .bool

/-- The error of an operator over operands of known type. -/
def error? (op : BinaryOp) (left right : Ty) : Option TypeError :=
  if op.takes left right then none else some (.operandMismatch op left right)

def checked (op : BinaryOp) : (left right : Option Ty) → Option Ty
  | some left, some right => if op.takes left right then some (op.result left right) else none
  | _, _ => none

end BinaryOp

namespace UnaryOp

/-- The result type over an operand of known type. -/
def result (op : UnaryOp) (operand : Ty) : Ty :=
  match op with
  | not => .bool
  | negate => operand
  | convert target => target

/-- Does the operator take an operand of this type?  Nothing converts to `bool`. -/
def takes (op : UnaryOp) (operand : Ty) : Bool :=
  match op with
  | not => operand = .bool
  | negate => operand.isNumeric
  | convert .float | convert .char => operand = .int
  | convert .int => operand = .float || operand = .char
  | convert .bool => false

/-- The error of an operator over an operand of known type. -/
def error? (op : UnaryOp) (operand : Ty) : Option TypeError :=
  if op.takes operand then none else some (.invalidOperand op operand)

def checked (op : UnaryOp) : (operand : Option Ty) → Option Ty
  | some operand => if op.takes operand then some (op.result operand) else none
  | none => none

end UnaryOp

end Clite
