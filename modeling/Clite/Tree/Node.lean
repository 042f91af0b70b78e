import Clite.Tree.Program

/-!
# Nodes and the walk over a tree

A node is any part of a tree that a walk stops at.  `walk` visits a node before its parts and the parts in the
order in which they are written: declarations before statements, tests before branches, an assignment's target
before its source, left before right.  The visitor carries a state and decides at each node whether the walk
goes on into its parts.
-/

namespace Clite

inductive Node where
  | program (program : Program)
  | decl (decl : Decl)
  | stmt (stmt : Stmt)
  | expr (expr : Expr)
  /-- the variable that an assignment assigns to -/
  | target (name : String)

inductive NodeKind where
  | program
  | variableDecl
  | skip
  | block
  | assignment
  | conditional
  | loop
  | reference
  | value
  | binary
  | unary
  deriving DecidableEq, Repr

def NodeKind.text : NodeKind → String
  | program => "Program"
  | variableDecl => "VariableDecl"
  | skip => "Skip"
  | block => "Block"
  | assignment => "Assignment"
  | conditional => "Conditional"
  | loop => "Loop"
  | reference => "Variable"
  | value => "Value"
  | binary => "Binary"
  | unary => "Unary"

def Stmt.kind : Stmt → NodeKind
  | skip => .skip
  | block _ => .block
  | assignment _ _ => .assignment
  | ifThen _ _ | ifElse _ _ _ => .conditional
  | loop _ _ => .loop

def Expr.kind : Expr → NodeKind
  | var _ => .reference
  | literal _ => .value
  | binary _ _ _ => .binary
  | unary _ _ => .unary

def Node.kind : Node → NodeKind
  | program _ => .program
  | decl _ => .variableDecl
  | stmt s => s.kind
  | expr e => e.kind
  | target _ => .reference

/-- What a walk does after a visit. -/
inductive Control where
  /-- go on into the parts of the node -/
  | enter
  /-- leave the parts of the node out -/
  | skip
  deriving DecidableEq, Repr

/-- A visitor with a state: what it does at a node, and whether to go on into the node's parts. -/
abbrev Visitor (σ : Type) := Node → σ → Control × σ

variable {σ : Type}

def Expr.walk (visit : Visitor σ) (e : Expr) (s : σ) : σ :=
  match visit (.expr e) s with
  | (.skip, s) => s
  | (.enter, s) =>
    match e with
    | var _ | literal _ => s
    | binary _ left right => right.walk visit (left.walk visit s)
    | unary _ operand => operand.walk visit s

mutual

def Stmt.walk (visit : Visitor σ) (stmt : Stmt) (s : σ) : σ :=
  match visit (.stmt stmt) s with
  | (.skip, s) => s
  | (.enter, s) =>
    match stmt with
    | .skip => s
    | .block members => Stmt.walkAll visit members s
    | .assignment target source => source.walk visit (visit (.target target) s).2
    | .ifThen test thenBranch => thenBranch.walk visit (test.walk visit s)
    | .ifElse test thenBranch elseBranch =>
      elseBranch.walk visit (thenBranch.walk visit (test.walk visit s))
    | .loop test body => body.walk visit (test.walk visit s)

def Stmt.walkAll (visit : Visitor σ) (stmts : List Stmt) (s : σ) : σ :=
  match stmts with
  | [] => s
  | stmt :: rest => Stmt.walkAll visit rest (stmt.walk visit s)

end

def Program.walk (visit : Visitor σ) (p : Program) (s : σ) : σ :=
  match visit (.program p) s with
  | (.skip, s) => s
  | (.enter, s) =>
    Stmt.walkAll visit p.body (p.declarations.foldl (fun s d => (visit (.decl d) s).2) s)

namespace Node

/-- Visits a node, and then its parts unless the visitor skips them. -/
def walk (visit : Visitor σ) (node : Node) (s : σ) : σ :=
  match node with
  | .program p => p.walk visit s
  | .stmt st => st.walk visit s
  | .expr e => e.walk visit s
  | .decl _ | .target _ => (visit node s).2

/-- The walk with a test in place of a decision: the parts of a node are visited when the test is true of it. -/
def inspect (test : Node → σ → Bool × σ) (node : Node) (s : σ) : σ :=
  node.walk (fun n s => let (go, s) := test n s; (if go then .enter else .skip, s)) s

/-- Expressions and targets as they are written, a declaration as `name: type`. -/
def detail? : Node → Option String
  | program _ | stmt _ => none
  | decl d => some (d.name ++ ": " ++ d.type.text)
  | expr e => some e.text
  | target name => some name

end Node

end Clite
