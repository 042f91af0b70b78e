import Clite.Proofs.Tree.Preorder
import Mathlib.Data.List.Basic

/-!
# Parts, walks and paths

A node is put together of its parts, and pre-order is a node in front of the pre-orders of its parts
(`Node.preorder_eq`).  A walk goes from part to part unless the visitor skips them (`Node.walk_of_skip`,
`Node.walk_of_go`), so one that never skips is the fold over the nodes in pre-order (`Node.walk_of_enter`).  A path
leads from a node down to one of its parts, and on from there.  How many constructs are open at a time on the paths from
a node follows from its parts (`Node.nestsWithin_of_parts`).
-/

namespace Clite.Node

/-- What a node is put together of, in the order in which it is written. -/
def parts : Node → List Node
  | program p => p.declarations.map .decl ++ p.body.map .stmt
  | stmt .skip => []
  | stmt (.block members) => members.map .stmt
  | stmt (.assignment name source) => [.target name, .expr source]
  | stmt (.ifThen test thenBranch) => [.expr test, .stmt thenBranch]
  | stmt (.ifElse test thenBranch elseBranch) => [.expr test, .stmt thenBranch, .stmt elseBranch]
  | stmt (.loop test body) => [.expr test, .stmt body]
  | expr (.var _) | expr (.literal _) => []
  | expr (.binary _ left right) => [.expr left, .expr right]
  | expr (.unary _ operand) => [.expr operand]
  | decl _ | target _ => []

private theorem preorderAll_eq_flatMap (stmts : List Stmt) :
    Stmt.preorderAll stmts = (stmts.map .stmt).flatMap preorder := by
  rw [Stmt.preorderAll_eq, List.flatMap_map]
  rfl

/-- A node comes before its parts, and each part before the next one. -/
theorem preorder_eq (n : Node) : n.preorder = n :: n.parts.flatMap preorder := by
  cases n with
  | program p =>
    have hdecls : (p.declarations.map Node.decl).flatMap preorder = p.declarations.map Node.decl := by
      rw [List.flatMap_map, List.map_eq_flatMap]
      rfl
    rw [parts, List.flatMap_append, hdecls, ← preorderAll_eq_flatMap]
    rfl
  | stmt s =>
    cases s with
    | block members =>
      rw [parts, ← preorderAll_eq_flatMap, preorder, Stmt.preorder]
    | _ => simp [parts, preorder, Stmt.preorder]
  | expr e => cases e <;> simp [parts, preorder, Expr.preorder]
  | decl d => rfl
  | target x => rfl

theorem mem_preorder_iff {n m : Node} : m ∈ n.preorder ↔ m = n ∨ ∃ part ∈ n.parts, m ∈ part.preorder := by
  rw [preorder_eq, List.mem_cons, List.mem_flatMap]

/-- What passes from the parts of a node to the node is true of all nodes. -/
theorem induction {motive : Node → Prop} (h : ∀ n, (∀ part ∈ n.parts, motive part) → motive n) (n : Node) :
    motive n := by
  have leaf {n : Node} (hn : n.parts = []) : motive n := h n (by simp [hn])
  have expr (e : Expr) : motive (.expr e) := by
    induction e with
    | var | literal => exact leaf rfl
    | binary op left right ihl ihr => exact h _ (by simp [parts, ihl, ihr])
    | unary op operand ih => exact h _ (by simp [parts, ih])
  have target (x : String) : motive (.target x) := leaf rfl
  have stmt (s : Stmt) : motive (.stmt s) := by
    induction s with
    | skip => exact leaf rfl
    | block members ih => exact h _ (List.forall_mem_map.2 ih)
    | assignment x source => exact h _ (by simp [parts, target, expr])
    | ifThen test thenBranch ih => exact h _ (by simp [parts, expr, ih])
    | ifElse test thenBranch elseBranch iht ihe => exact h _ (by simp [parts, expr, iht, ihe])
    | loop test body ih => exact h _ (by simp [parts, expr, ih])
  cases n with
  | program p =>
    refine h _ (List.forall_mem_append.2 ⟨?_, ?_⟩)
    · exact List.forall_mem_map.2 fun d _ => leaf rfl
    · exact List.forall_mem_map.2 fun s _ => stmt s
  | stmt s => exact stmt s
  | expr e => exact expr e
  | decl d => exact leaf rfl
  | target x => exact target x

/-! ### Walks -/

section Walks

variable {σ : Type} {visit : Visitor σ} {n : Node} {s : σ}

/-- A walk ends at a node whose parts are skipped. -/
theorem walk_of_skip (h : (visit n s).1 = .skip) : n.walk visit s = visit.after s n := by
  have hvisit : visit n s = (.skip, visit.after s n) := Prod.ext h rfl
  cases n with
  | program p => rw [walk, Program.walk, hvisit]
  | stmt stmt => rw [walk, Stmt.walk.eq_def, hvisit]
  | expr e => rw [walk, Expr.walk.eq_def, hvisit]
  | decl d => rfl
  | target x => rfl

/-- Otherwise it goes on from part to part. -/
theorem walk_of_go (h : (visit n s).1 = .enter) :
    n.walk visit s = n.parts.foldl (fun s part => part.walk visit s) (visit.after s n) := by
  have hvisit : visit n s = (.enter, visit.after s n) := Prod.ext h rfl
  cases n with
  | program p =>
    rw [walk, Program.walk, hvisit, parts, List.foldl_append, List.foldl_map, List.foldl_map]
    exact Stmt.walkAll_eq ..
  | stmt stmt =>
    cases stmt with
    | block members =>
      rw [walk, Stmt.walk, hvisit, parts, List.foldl_map]
      exact Stmt.walkAll_eq ..
    | skip | assignment | ifThen | ifElse | loop =>
      rw [walk, Stmt.walk, hvisit]
      rfl
  | expr e =>
    cases e with
    | var | literal | binary | unary =>
      rw [walk, Expr.walk, hvisit]
      rfl
  | decl d => rfl
  | target x => rfl

/-- A visitor that never skips comes to every node once, in pre-order. -/
theorem walk_of_enter (h : ∀ n s, (visit n s).1 = .enter) (n : Node) (s : σ) :
    n.walk visit s = n.preorder.foldl visit.after s := by
  induction n using Node.induction generalizing s with
  | h n ih =>
    rw [walk_of_go (h n s), preorder_eq, List.foldl_cons, List.foldl_flatMap]
    exact List.foldl_ext _ _ _ fun t part hpart => ih part hpart t

end Walks

/-! ### Paths -/

/-- The nodes on a way down from a node, itself among them; the way may end at any node. -/
inductive Path : Node → List Node → Prop
  | stop (n : Node) : Path n [n]
  | down {n part : Node} {path : List Node} : part ∈ n.parts → Path part path → Path n (n :: path)

/-- Is the node a compound statement or a conversion? -/
def nests : Node → Bool
  | stmt (.block _) | stmt (.ifThen _ _) | stmt (.ifElse _ _ _) | stmt (.loop _ _) => true
  | expr (.unary (.convert _) _) => true
  | _ => false

/-- On no path are there more than `room` compound statements and conversions. -/
def NestsWithin (n : Node) (room : Nat) : Prop := ∀ path, n.Path path → path.countP nests ≤ room

theorem NestsWithin.mono {n : Node} {room room' : Nat} (h : n.NestsWithin room) (hle : room ≤ room') :
    n.NestsWithin room' := fun path hpath => Nat.le_trans (h path hpath) hle

/-- A node adds at most itself to the paths of its parts. -/
theorem nestsWithin_of_parts {n : Node} {room : Nat} (h : ∀ part ∈ n.parts, part.NestsWithin room) :
    n.NestsWithin (room + if n.nests then 1 else 0) := by
  intro path hpath
  cases hpath with
  | stop => simp
  | down hpart hpath =>
    have hbelow := h _ hpart _ hpath
    rw [List.countP_cons]
    omega

end Clite.Node
