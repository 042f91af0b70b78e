import Clite.Event
import Clite.Typing.Memo

/-!
# Checking programs

A checker goes through a program by a walk, and reports each node that breaks a rule of its own.  A node whose parts
are not well typed is not blamed for that: the report is made at the part where the fault lies, once.  The types of
the parts are taken from a memo, which is new for each check: the addresses in it are those of one program.
-/

namespace Clite

structure Checker where
  types : TypeMap
  /-- its log holds the diagnostics of the latest check -/
  reporter : Reporter
  trace : Log Event

namespace Checker

/-- A checker with the declarations of a program, reporting to a listener that has received `delivered`. -/
def ofProgram (p : Program) (delivered : Log Diagnostic) (trace : Log Event) : Except TypeError Checker :=
  match TypeMap.build p with
  | .error e => .error e
  | .ok types => .ok ⟨types, .onto delivered, trace.push (.typeMapBuilt types)⟩

/-- Comes to a node, and reports its error if it has one. -/
def visit (c : Checker) (kind : NodeKind) (error : Option TypeError) : Checker :=
  match error with
  | none => { c with trace := c.trace.push (.checking kind) }
  | some e =>
    { c with
      reporter := c.reporter.error e.message none
      trace := (c.trace.push (.checking kind)).push (.typeError e) }

/-! ### The rule of each kind of node -/

def variableError? (m : TypeMap) (name : String) : Option TypeError :=
  if m.contains name then none else some (.undefinedVariable name)

def binaryError? (op : BinaryOp) : (left right : Option Ty) → Option TypeError
  | some left, some right => op.error? left right
  | _, _ => none

def unaryError? (op : UnaryOp) : (operand : Option Ty) → Option TypeError
  | some operand => op.error? operand
  | none => none

def assignmentError? (target : String) : (expected found : Option Ty) → Option TypeError
  | some expected, some found =>
    if expected.accepts found then none else some (.assignmentMismatch target expected found)
  | _, _ => none

def testError? (construct : String) : (found : Option Ty) → Option TypeError
  | some found => if found = .bool then none else some (.nonBooleanTest construct found)
  | none => none

/-! ### Going through a program -/

/-- The error of the node at an address, if it has one.  The types of its parts are asked for through the memo. -/
def nodeError? (m : TypeMap) (address : Nat) (memo : Memo) : Node → Option TypeError × Memo
  | .target name | .expr (.var name) => (variableError? m name, memo)
  | .expr (.binary op left right) =>
    let (l, memo) := m.known (address + 1) left memo
    let (r, memo) := m.known (address + 1 + left.size) right memo
    (binaryError? op l r, memo)
  | .expr (.unary op operand) =>
    let (t, memo) := m.known (address + 1) operand memo
    (unaryError? op t, memo)
  | .stmt (.assignment target source) =>
    -- the target stands between the statement and its source
    let (found, memo) := m.known (address + 2) source memo
    (assignmentError? target (m.find? target) found, memo)
  | .stmt (.ifThen test _) | .stmt (.ifElse test _ _) =>
    let (found, memo) := m.known (address + 1) test memo
    (testError? "if statement" found, memo)
  | .stmt (.loop test _) =>
    let (found, memo) := m.known (address + 1) test memo
    (testError? "while loop" found, memo)
  | .program _ | .decl _ | .stmt .skip | .stmt (.block _) | .expr (.literal _) => (none, memo)

/-- A checker on its way through a program. -/
structure Pass where
  checker : Checker
  memo : Memo
  /-- the address of the node that comes next -/
  address : Nat

/-- Before the first node the memo is empty. -/
def Pass.start (c : Checker) : Pass := ⟨c, .empty, 0⟩

/-- Comes to the next node and reports its error if it has one.  No node is left out. -/
def Pass.visit : Visitor Pass := fun n ⟨c, memo, address⟩ =>
  let (error, memo) := nodeError? c.types address memo n
  (.enter, ⟨c.visit n.kind error, memo, address + 1⟩)

/-- Checks a whole program over the checker's own type map.  The log starts anew. -/
def check (c : Checker) (p : Program) : Checker :=
  let c := { c with reporter := c.reporter.clear }
  let c := ((Node.program p).walk Pass.visit (.start c)).checker
  { c with trace := c.trace.push (.checked c.reporter.count) }

/-- The number of errors of the latest check. -/
def errorCount (c : Checker) : Nat := c.reporter.count

/-- Did the latest check find the program well typed? -/
def isValid (c : Checker) : Bool := c.errorCount = 0

def diagnostics (c : Checker) : List Diagnostic := c.reporter.diagnostics

end Checker

end Clite
