import Clite.Tree.Program
import Clite.Typing.Rules

/-!
# Type maps

The declared variables with their types, in the order of their declaration.  A name is declared once at most.
Two functions type an expression over a map: `typeOf` is lenient and looks no further than the result needs,
`checkedType` wants every part of the expression well typed.
-/

namespace Clite

structure TypeMap where
  entries : List (String × Ty)
  deriving DecidableEq, Repr

namespace TypeMap

def empty : TypeMap := ⟨[]⟩

def find? (m : TypeMap) (name : String) : Option Ty := m.entries.lookup name

def contains (m : TypeMap) (name : String) : Bool := (m.find? name).isSome

def size (m : TypeMap) : Nat := m.entries.length

def isEmpty (m : TypeMap) : Bool := m.entries.isEmpty

/-- Adds a variable behind the others, unless its name is taken. -/
def declare (m : TypeMap) (name : String) (type : Ty) : Except TypeError TypeMap :=
  if m.contains name then .error (.duplicateDeclaration name) else .ok ⟨m.entries ++ [(name, type)]⟩

/-- Adds declarations one after the other, up to the first whose name is taken. -/
def declareAll (m : TypeMap) : List Decl → Except TypeError TypeMap
  | [] => .ok m
  | d :: ds =>
    match m.declare d.name d.type with
    | .error e => .error e
    | .ok m => m.declareAll ds

/-- Declares a variable in a map that stays in use: the error, if the name is taken, and the map behind it. -/
def enter (m : TypeMap) (d : Decl) : Option TypeError × TypeMap :=
  match m.declare d.name d.type with
  | .error e => (some e, m)
  | .ok m => (none, m)

/-- The map of a program's declarations. -/
def build (p : Program) : Except TypeError TypeMap := empty.declareAll p.declarations

/-- `name: type` -/
def entryText (entry : String × Ty) : String := entry.1 ++ ": " ++ entry.2.text

def text (m : TypeMap) : String := "\x7b" ++ ", ".intercalate (m.entries.map entryText) ++ "\x7d"

/-- The type of an expression as far as its outermost operators tell; unknown when it hangs on a variable that
is not declared. -/
def typeOf (m : TypeMap) : Expr → Option Ty
  | .var name => m.find? name
  | .literal v => some v.type
  | .binary op left right =>
    match op.opClass with
    | .arithmetic =>
      match m.typeOf left, m.typeOf right with
      | some l, some r => some (op.result l r)
      | _, _ => none
    | .relational | .equality | .boolean => some .bool
  | .unary .not _ => some .bool
  | .unary .negate operand => m.typeOf operand
  | .unary (.convert target) _ => some target

/-- The type of an expression all of whose variables are declared and all of whose operators take their
operands. -/
def checkedType (m : TypeMap) : Expr → Option Ty
  | .var name => m.find? name
  | .literal v => some v.type
  | .binary op left right => op.checked (m.checkedType left) (m.checkedType right)
  | .unary op operand => op.checked (m.checkedType operand)

def isValid (m : TypeMap) (e : Expr) : Bool := (m.checkedType e).isSome

end TypeMap

end Clite
