import Clite.Tree.Node

/-!
# Nodes in pre-order

The nodes of a tree in the order in which a walk comes to them: each node before its parts, and the parts in the
order in which they are written.
-/

namespace Clite

def Expr.preorder (e : Expr) : List Node :=
  .expr e ::
    match e with
    | var _ | literal _ => []
    | binary _ left right => left.preorder ++ right.preorder
    | unary _ operand => operand.preorder

mutual

def Stmt.preorder (stmt : Stmt) : List Node :=
  .stmt stmt ::
    match stmt with
    | .skip => []
    | .block members => Stmt.preorderAll members
    | .assignment target source => .target target :: source.preorder
    | .ifThen test thenBranch => test.preorder ++ thenBranch.preorder
    | .ifElse test thenBranch elseBranch => test.preorder ++ thenBranch.preorder ++ elseBranch.preorder
    | .loop test body => test.preorder ++ body.preorder

def Stmt.preorderAll : List Stmt → List Node
  | [] => []
  | stmt :: rest => stmt.preorder ++ Stmt.preorderAll rest

end

def Program.preorder (p : Program) : List Node :=
  .program p :: (p.declarations.map .decl ++ Stmt.preorderAll p.body)

def Node.preorder : Node → List Node
  | program p => p.preorder
  | stmt s => s.preorder
  | expr e => e.preorder
  | node@(decl _) | node@(target _) => [node]

/-- The nodes of a list of statements are those of its members, one statement behind the other. -/
theorem Stmt.preorderAll_eq (stmts : List Stmt) : preorderAll stmts = stmts.flatMap preorder := by
  induction stmts with
  | nil => rfl
  | cons stmt rest ih => rw [preorderAll, ih, List.flatMap_cons]

theorem Stmt.walkAll_eq {σ : Type} (visit : Visitor σ) (stmts : List Stmt) (s : σ) :
    walkAll visit stmts s = stmts.foldl (fun s stmt => stmt.walk visit s) s := by
  induction stmts generalizing s with
  | nil => rfl
  | cons stmt rest ih => rw [walkAll, ih, List.foldl_cons]

/-- The state behind a node. -/
def Visitor.after {σ : Type} (visit : Visitor σ) (s : σ) (n : Node) : σ := (visit n s).2

end Clite
