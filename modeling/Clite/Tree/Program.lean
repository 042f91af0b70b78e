import Clite.Tree.Expr

/-!
# Programs

A program is the body of `main`: declarations first, then statements.
-/

namespace Clite

inductive Stmt where
  /-- a semicolon standing alone -/
  | skip
  | block (members : List Stmt)
  | assignment (target : String) (source : Expr)
  | ifThen (test : Expr) (thenBranch : Stmt)
  | ifElse (test : Expr) (thenBranch elseBranch : Stmt)
  | loop (test : Expr) (body : Stmt)

namespace Stmt

mutual

/-- Statements are compared part by part. -/
def decEq : (s t : Stmt) → Decidable (s = t)
  | skip, skip => isTrue rfl
  | block ss, block ts =>
    match decEqAll ss ts with
    | isTrue h => isTrue (h ▸ rfl)
    | isFalse h => isFalse fun e => h (block.inj e)
  | assignment x e, assignment y f => decidable_of_iff (x = y ∧ e = f) (by simp)
  | ifThen e s, ifThen f t =>
    match decEq s t with
    | isTrue h => decidable_of_iff (e = f) (by simp [h])
    | isFalse h => isFalse (by simp [h])
  | ifElse e s s', ifElse f t t' =>
    match decEq s t, decEq s' t' with
    | isTrue h, isTrue h' => decidable_of_iff (e = f) (by simp [h, h'])
    | isFalse h, _ => isFalse (by simp [h])
    | _, isFalse h => isFalse (by simp [h])
  | loop e s, loop f t =>
    match decEq s t with
    | isTrue h => decidable_of_iff (e = f) (by simp [h])
    | isFalse h => isFalse (by simp [h])
  | skip, block .. | skip, assignment .. | skip, ifThen .. | skip, ifElse .. | skip, loop .. => isFalse nofun
  | block .., skip | block .., assignment .. | block .., ifThen .. | block .., ifElse .. | block .., loop .. =>
    isFalse nofun
  | assignment .., skip | assignment .., block .. | assignment .., ifThen .. | assignment .., ifElse ..
  | assignment .., loop .. => isFalse nofun
  | ifThen .., skip | ifThen .., block .. | ifThen .., assignment .. | ifThen .., ifElse ..
  | ifThen .., loop .. => isFalse nofun
  | ifElse .., skip | ifElse .., block .. | ifElse .., assignment .. | ifElse .., ifThen ..
  | ifElse .., loop .. => isFalse nofun
  | loop .., skip | loop .., block .. | loop .., assignment .. | loop .., ifThen .. | loop .., ifElse .. =>
    isFalse nofun

def decEqAll : (ss ts : List Stmt) → Decidable (ss = ts)
  | [], [] => isTrue rfl
  | s :: ss, t :: ts =>
    match decEq s t, decEqAll ss ts with
    | isTrue h, isTrue h' => isTrue (h ▸ h' ▸ rfl)
    | isFalse h, _ => isFalse (by simp [h])
    | _, isFalse h => isFalse (by simp [h])
  | [], _ :: _ | _ :: _, [] => isFalse nofun

end

instance : DecidableEq Stmt := decEq

/-- What passes from the parts of a statement to the statement is true of all statements. -/
@[induction_eliminator]
theorem induction {motive : Stmt → Prop} (skip : motive skip)
    (block : ∀ members, (∀ s ∈ members, motive s) → motive (block members))
    (assignment : ∀ target source, motive (assignment target source))
    (ifThen : ∀ test thenBranch, motive thenBranch → motive (ifThen test thenBranch))
    (ifElse : ∀ test thenBranch elseBranch, motive thenBranch → motive elseBranch →
      motive (ifElse test thenBranch elseBranch))
    (loop : ∀ test body, motive body → motive (loop test body)) (s : Stmt) : motive s :=
  @Stmt.rec motive (fun ss => ∀ s ∈ ss, motive s) skip block assignment ifThen ifElse loop
    (fun _ h => absurd h List.not_mem_nil) (fun _ _ h h' => List.forall_mem_cons.2 ⟨h, h'⟩) s

end Stmt

/-- A variable and its type. -/
structure Decl where
  name : String
  type : Ty
  deriving DecidableEq, Repr

structure Program where
  declarations : List Decl
  body : List Stmt
  deriving DecidableEq

/-- No declarations and no statements. -/
def Program.empty : Program := ⟨[], []⟩

end Clite
