import Clite.Decimal.Notation
import Clite.Operator

/-!
# Expressions

Literal values and the expressions over them, with their text: binary expressions stand in parentheses, so the
text needs no precedence.
-/

namespace Clite

inductive Value where
  | int (value : Int32)
  | char (value : Char)
  | float (value : Float)
  | bool (value : Bool)
  deriving DecidableEq

namespace Value

/-- The type of a literal value. -/
def type : Value → Ty
  | int _ => .int
  | char _ => .char
  | float _ => .float
  | bool _ => .bool

/-- A character stands between quotes as it is. -/
def text : Value → String
  | int v => toString v.toInt
  | char c => String.ofList ['\'', c, '\'']
  | float x => Decimal.ofFloat x
  | bool true => "true"
  | bool false => "false"

end Value

inductive Expr where
  | var (name : String)
  | literal (value : Value)
  | binary (op : BinaryOp) (left right : Expr)
  | unary (op : UnaryOp) (operand : Expr)
  deriving DecidableEq

/-- The infix form with all its parentheses; a conversion is written like a call. -/
def Expr.text : Expr → String
  | var name => name
  | literal v => v.text
  | binary op left right => "(" ++ left.text ++ " " ++ op.text ++ " " ++ right.text ++ ")"
  | unary (.convert target) operand => target.text ++ "(" ++ operand.text ++ ")"
  | unary op operand => op.text ++ operand.text

end Clite
