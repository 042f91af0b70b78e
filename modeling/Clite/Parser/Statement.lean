import Clite.Parser.Expression
import Clite.Tree.Program

/-!
# Parsing statements

```text
statement   := ; | block | conditional | loop | assignment
block       := { {statement} }
conditional := if ( expression ) statement [else statement]
loop        := while ( expression ) statement
assignment  := identifier = expression
```

The semicolon that usually follows an assignment is a statement of its own.  A statement that cannot be read is
reported and dropped, and the list that it stands in goes on behind it.
-/

namespace Clite

/-- Does the parser look at the end of a list of statements: a closing brace or the end of the file? -/
def Parser.atListEnd (p : Parser) : Bool := p.current.kind = .rightBrace || p.current.kind = .endOfFile

namespace Parse

open Clite.Parser

variable {α β : Type}

/-! ### Procedures that make progress -/

/-- Consumes a token at least when it begins at a token of kind `k`. -/
def ConsumesAt (k : TokenKind) (m : Parse α) : Prop :=
  ∀ p, p.current.kind = k → (m.run p).2.size < p.size

/-- Consumes a token at least unless it begins at the end of a list of statements. -/
def Advances (m : Parse Stmt) : Prop := ∀ p, p.atListEnd = false → (m.run p).2.size < p.size

theorem ConsumesAt.bind {k : TokenKind} {m : Parse α} (hm : m.ConsumesAt k) (f : α → Parse β) :
    (m >>= f).ConsumesAt k := by
  intro p hp
  have h := hm p hp
  rw [run_bind]
  split
  · next heq => rw [heq] at h; exact h
  · next a q heq => rw [heq] at h; exact Nat.lt_of_le_of_lt ((f a).size_run q) h

private theorem consumesAt_take {k : TokenKind} (hk : k ≠ .endOfFile) : take.ConsumesAt k :=
  fun _ hp => size_advance_lt (hp ▸ hk)

private theorem consumesAt_expect {k : TokenKind} (hk : k ≠ .endOfFile) (context : String) :
    (expect k context).ConsumesAt k := by
  intro p hp
  rw [run_expect, if_pos hp]
  exact size_advance_lt (hp ▸ hk)

private theorem consumesAt_require {k : TokenKind} (hk : k ≠ .endOfFile) (context : String) :
    (require k context).ConsumesAt k :=
  ConsumesAt.bind (m := attempt (expect k context)) (fun p hp => consumesAt_expect hk context p hp) _

private theorem consumesAt_tooDeep {k : TokenKind} (hs : k ≠ .semicolon) (hb : k ≠ .rightBrace)
    (he : k ≠ .endOfFile) : (tooDeep : Parse α).ConsumesAt k := by
  intro p hp
  have hn : (p.report (.nestingTooDeep maxNesting p.current.position)).atBoundary = false := by
    simp [atBoundary, report, hp, hs, hb, he]
  simp only [tooDeep]
  rw [skipToBoundary, hn]
  exact Nat.lt_of_le_of_lt (reaches_skipToBoundary _).size_le (size_advance_lt (p := p.report _) (hp ▸ he))

/-! ### Lists of statements -/

/-- The statements up to the end of the list, behind those already found, which are given last one first. -/
def statementsOnto (statement : Parse Stmt) (h : statement.Advances) (found : List Stmt) (p : Parser) :
    List Stmt × Parser :=
  if _hp : p.atListEnd then (found.reverse, p)
  else
    let r := statement.run p
    statementsOnto statement h (r.1.toList ++ found) r.2
termination_by p.size
decreasing_by exact h p (by simpa using _hp)

theorem reaches_statementsOnto (statement : Parse Stmt) (h : statement.Advances) (found : List Stmt)
    (p : Parser) : p.Reaches (statementsOnto statement h found p).2 := by
  fun_induction statementsOnto statement h found p with
  | case1 => exact .refl
  | case2 found p _ r ih => exact (statement.reaches_run p).trans ih

/-- The statements that can be read, up to a closing brace or the end of the file. -/
def statementsOver (statement : Parse Stmt) (h : statement.Advances) : Parse (List Stmt) where
  run p := let r := statementsOnto statement h [] p; (some r.1, r.2)
  reaches_run := reaches_statementsOnto statement h []

/-! ### Statements over given parts -/

def block (statements : Parse (List Stmt)) : Parse Stmt := do
  require .leftBrace "block"
  let members ← statements
  require .rightBrace "block"
  return .block members

/-- The test of the statement `context`; parentheses that are missing are reported and done without. -/
def test (expression : Parse Expr) (context : String) : Parse Expr := do
  require .leftParen context
  let e ← attempt expression
  require .rightParen context
  ofOption e

/-- A conditional is read to its end even if its test or its first branch is dropped. -/
def conditional (expression : Parse Expr) (statement : Parse Stmt) : Parse Stmt := do
  require .ifWord "if statement"
  let condition ← attempt (test expression "if statement")
  let thenBranch ← attempt statement
  if ← accept .elseWord then
    let elseBranch ← statement
    return .ifElse (← ofOption condition) (← ofOption thenBranch) elseBranch
  else
    return .ifThen (← ofOption condition) (← ofOption thenBranch)

def loop (expression : Parse Expr) (statement : Parse Stmt) : Parse Stmt := do
  require .whileWord "while statement"
  let condition ← attempt (test expression "while statement")
  let body ← attempt statement
  return .loop (← ofOption condition) (← ofOption body)

def assignment (expression : Parse Expr) : Parse Stmt := do
  let target ← expect .identifier "assignment"
  let _ ← expect .assign "assignment"
  return .assignment target.lexeme (← expression)

/-- In place of a statement that cannot begin here: the token is reported, and consumed unless it ends the
list. -/
def stray : Parse Stmt where
  run p :=
    let q := p.report (.expectedStatement p.current)
    (none, if p.atListEnd then q else q.advance)
  reaches_run p := by
    split
    · exact .report .refl rfl
    · exact .advance (.report .refl rfl)

/-- A statement, given the procedures for its kinds. -/
def statementOver (block conditional loop assignment : Parse Stmt) : Parse Stmt := do
  match (← current).kind with
  | .semicolon =>
    let _ ← take
    return .skip
  | .leftBrace => block
  | .ifWord => conditional
  | .whileWord => loop
  | .identifier => assignment
  | _ => stray

private theorem advances_statementOver {block conditional loop assignment : Parse Stmt}
    (hb : block.ConsumesAt .leftBrace) (hc : conditional.ConsumesAt .ifWord)
    (hl : loop.ConsumesAt .whileWord) (ha : assignment.ConsumesAt .identifier) :
    (statementOver block conditional loop assignment).Advances := by
  intro p hp
  simp only [statementOver, run_bind, run_current]
  split
  · next h => exact consumesAt_take (by decide) p h
  · next h => exact hb p h
  · next h => exact hc p h
  · next h => exact hl p h
  · next h => exact ha p h
  · simp only [stray, hp]
    exact size_advance_lt (p := p.report _) (by simp_all [atListEnd, report])

/-! ### Statements with room to nest -/

/-- A statement; each kind that nests has one construct less room inside. -/
def statementIn : (room : Nat) → { m : Parse Stmt // m.Advances }
  | 0 =>
    ⟨statementOver tooDeep tooDeep tooDeep (assignment (expressionIn 0)),
      advances_statementOver (consumesAt_tooDeep (by decide) (by decide) (by decide))
        (consumesAt_tooDeep (by decide) (by decide) (by decide))
        (consumesAt_tooDeep (by decide) (by decide) (by decide))
        ((consumesAt_expect (by decide) _).bind _)⟩
  | room + 1 =>
    let inner := statementIn room
    ⟨statementOver (block (statementsOver inner.1 inner.2)) (conditional (expressionIn room) inner.1)
        (loop (expressionIn room) inner.1) (assignment (expressionIn (room + 1))),
      advances_statementOver ((consumesAt_require (by decide) _).bind _)
        ((consumesAt_require (by decide) _).bind _) ((consumesAt_require (by decide) _).bind _)
        ((consumesAt_expect (by decide) _).bind _)⟩

def statementsIn (room : Nat) : Parse (List Stmt) :=
  statementsOver (statementIn room).1 (statementIn room).2

/-! ### Statements as they stand outside of any construct -/

def statement : Parse Stmt := (statementIn maxNesting).1

def statements : Parse (List Stmt) := statementsIn maxNesting

end Parse

end Clite
