import Clite.Operator

/-!
# Type errors

The ways in which a program can break the typing rules, and the words in which that is said.
-/

namespace Clite

inductive TypeError where
  | duplicateDeclaration (name : String)
  | undefinedVariable (name : String)
  | operandMismatch (op : BinaryOp) (left right : Ty)
  | invalidOperand (op : UnaryOp) (operand : Ty)
  | assignmentMismatch (target : String) (expected found : Ty)
  /-- the test of the statement `construct` is not boolean -/
  | nonBooleanTest (construct : String) (found : Ty)
  deriving DecidableEq, Repr

def TypeError.message : TypeError → String
  | duplicateDeclaration name => "Duplicate declaration of `" ++ name ++ "`"
  | undefinedVariable name => "Undefined variable `" ++ name ++ "`"
  | operandMismatch op left right =>
    "Operator `" ++ op.text ++ "` cannot be applied to " ++ left.text ++ " and " ++ right.text
  | invalidOperand op operand => "Invalid operand of type " ++ operand.text ++ " for `" ++ op.text ++ "`"
  | assignmentMismatch target expected found =>
    "Cannot assign " ++ found.text ++ " to `" ++ target ++ "` of type " ++ expected.text
  | nonBooleanTest construct found => "Test of " ++ construct ++ " must be bool, found " ++ found.text

end Clite
