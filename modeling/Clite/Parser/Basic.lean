import Clite.Lexer

/-!
# Parsers and parsing procedures

A parser holds a lexer and the token it looks at.  A parsing procedure reads a construct from a parser; it may
fail to build a tree, but it always leaves a parser behind from which parsing can go on.  Whatever a procedure
does is made up of a few kinds of steps (`Parser.Reaches`): it consumes its token, reports an error at the token
that it looks at or has just consumed, or notes that a program was read.  So the input that is left never grows
(`Parse.size_run`), and a loop that consumes a token in each round comes to an end.
-/

namespace Clite

structure Parser where
  lexer : Lexer
  /-- the token that parsing has come to -/
  current : Token
  /-- syntax errors reported so far -/
  syntaxErrors : Nat

namespace Parser

/-- A parser on what a lexer has left. -/
def ofLexer (l : Lexer) : Parser := ⟨l.next.2, l.next.1, 0⟩

def ofSource (source : String) : Parser := ofLexer (.ofSource source)

/-- Lexical and syntax errors reported so far. -/
def errorCount (p : Parser) : Nat := p.lexer.errorCount + p.syntaxErrors

/-- Lexical and syntax diagnostics, in the order in which they were reported. -/
def diagnostics (p : Parser) : List Diagnostic := p.lexer.reporter.diagnostics

/-- The parser behind the current token. -/
def advance (p : Parser) : Parser := { p with lexer := p.lexer.next.2, current := p.lexer.next.1 }

/-- Reports a syntax error, in the same log as the lexer. -/
def report (p : Parser) (error : SyntaxError) : Parser :=
  { p with
    lexer := { p.lexer with
      reporter := p.lexer.reporter.error error.message (some error.position)
      trace := p.lexer.trace.push (.syntaxError error) }
    syntaxErrors := p.syntaxErrors + 1 }

/-- Notes that a program of so many declarations and statements was read. -/
def noteProgram (p : Parser) (declarations statements : Nat) : Parser :=
  { p with lexer := p.lexer.emit (.parsed declarations statements p.lexer.reporter.count) }

/-- `p.Reaches q`: parsing can lead from `p` to `q`. -/
inductive Reaches (p : Parser) : Parser → Prop
  | refl : Reaches p p
  | advance {q : Parser} : Reaches p q → Reaches p q.advance
  | report {q : Parser} {e : SyntaxError} :
    Reaches p q → e.position = q.current.position → Reaches p (q.report e)
  /-- an error at the token that is consumed -/
  | reject {q : Parser} {e : SyntaxError} :
    Reaches p q → e.position = q.current.position → Reaches p (q.advance.report e)
  | noteProgram {q : Parser} (declarations statements : Nat) :
    Reaches p q → Reaches p (q.noteProgram declarations statements)

theorem Reaches.trans {p q r : Parser} (h : p.Reaches q) (h' : q.Reaches r) : p.Reaches r := by
  induction h' with
  | refl => exact h
  | advance _ ih => exact ih.advance
  | report _ he ih => exact ih.report he
  | reject _ he ih => exact ih.reject he
  | noteProgram ds ss _ ih => exact ih.noteProgram ds ss

/-- An upper bound for the number of tokens left. -/
def size (p : Parser) : Nat := p.lexer.pieces.length + if p.current.kind = .endOfFile then 0 else 1

@[simp] theorem size_report (p : Parser) (e : SyntaxError) : (p.report e).size = p.size := rfl

@[simp] theorem size_noteProgram (p : Parser) (ds ss : Nat) : (p.noteProgram ds ss).size = p.size := rfl

theorem size_advance_le (p : Parser) : p.advance.size ≤ p.size :=
  Nat.le_trans p.lexer.next_pieces (Nat.le_add_right ..)

/-- Behind a token that is not the end of file there is less left. -/
theorem size_advance_lt {p : Parser} (h : p.current.kind ≠ .endOfFile) : p.advance.size < p.size := by
  have := p.lexer.next_pieces
  unfold size
  simp only [h, ↓reduceIte]
  exact Nat.lt_succ_of_le this

/-- Parsing never adds to what is left. -/
theorem Reaches.size_le {p q : Parser} (h : p.Reaches q) : q.size ≤ p.size := by
  induction h with
  | refl => exact Nat.le_refl _
  | advance _ ih => exact Nat.le_trans (size_advance_le _) ih
  | report _ _ ih => exact ih
  | reject _ _ ih => exact Nat.le_trans (size_advance_le _) ih
  | noteProgram _ _ _ ih => exact ih

end Parser

/-- A parsing procedure: from a parser to a result, if there is one, and the parser behind the construct. -/
structure Parse (α : Type) where
  run : Parser → Option α × Parser
  reaches_run : ∀ p : Parser, p.Reaches (run p).2

namespace Parse

variable {α β : Type}

theorem size_run (m : Parse α) (p : Parser) : (m.run p).2.size ≤ p.size := (m.reaches_run p).size_le

instance : Monad Parse where
  pure a := ⟨fun p => (some a, p), fun _ => .refl⟩
  bind m f :=
    { run := fun p =>
        match m.run p with
        | (none, q) => (none, q)
        | (some a, q) => (f a).run q
      reaches_run := fun p => by
        have hm := m.reaches_run p
        split
        · next h => rw [h] at hm; exact hm
        · next a q h => rw [h] at hm; exact hm.trans ((f a).reaches_run q) }

@[simp] theorem run_pure (a : α) (p : Parser) : (pure a : Parse α).run p = (some a, p) := rfl

theorem run_bind (m : Parse α) (f : α → Parse β) (p : Parser) :
    (m >>= f).run p =
      match m.run p with
      | (none, q) => (none, q)
      | (some a, q) => (f a).run q := rfl

/-- The result of an earlier procedure: fails where that one did. -/
def ofOption : Option α → Parse α
  | some a => pure a
  | none => ⟨fun p => (none, p), fun _ => .refl⟩

/-- Runs a procedure and goes on whether it has a result or not. -/
def attempt (m : Parse α) : Parse (Option α) where
  run p := (some (m.run p).1, (m.run p).2)
  reaches_run := m.reaches_run

/-- The current token, which stays where it is. -/
def current : Parse Token := ⟨fun p => (some p.current, p), fun _ => .refl⟩

/-- The current token, which is consumed. -/
def take : Parse Token := ⟨fun p => (some p.current, p.advance), fun _ => .advance .refl⟩

/-- Reports an error at the current token and fails. -/
def fail (error : Token → SyntaxError) (h : ∀ t, (error t).position = t.position := by exact fun _ => rfl) :
    Parse α :=
  ⟨fun p => (none, p.report (error p.current)), fun _ => .report .refl (h _)⟩

def noteProgram (declarations statements : Nat) : Parse Unit :=
  ⟨fun p => (some (), p.noteProgram declarations statements), fun _ => .noteProgram _ _ .refl⟩

/-- Consumes a token of kind `k` if there is one, and says whether there was. -/
def accept (k : TokenKind) : Parse Bool := do
  if (← current).kind = k then
    let _ ← take
    return true
  else return false

/-- Consumes a token of kind `k`, which the construct `context` needs here.  Any other token is reported and
stays where it is. -/
def expect (k : TokenKind) (context : String) : Parse Token := do
  if (← current).kind = k then take else fail (.unexpected k context)

/-- Expects a token of kind `k` and goes on without it if it is missing. -/
def require (k : TokenKind) (context : String) : Parse Unit := do
  let _ ← attempt (expect k context)

/-! ### What the elementary procedures do -/

@[simp] theorem run_ofOption (a : Option α) (p : Parser) : (ofOption a).run p = (a, p) := by
  cases a <;> rfl

@[simp] theorem run_attempt (m : Parse α) (p : Parser) :
    (attempt m).run p = (some (m.run p).1, (m.run p).2) := rfl

@[simp] theorem run_current (p : Parser) : current.run p = (some p.current, p) := rfl

@[simp] theorem run_take (p : Parser) : take.run p = (some p.current, p.advance) := rfl

@[simp] theorem run_fail (error : Token → SyntaxError) (h : ∀ t, (error t).position = t.position)
    (p : Parser) : (fail error h : Parse α).run p = (none, p.report (error p.current)) := rfl

@[simp] theorem run_noteProgram (ds ss : Nat) (p : Parser) :
    (noteProgram ds ss).run p = (some (), p.noteProgram ds ss) := rfl

theorem run_accept (k : TokenKind) (p : Parser) :
    (accept k).run p = if p.current.kind = k then (some true, p.advance) else (some false, p) := by
  simp only [accept, run_bind, run_current]
  split <;> rfl

theorem run_expect (k : TokenKind) (context : String) (p : Parser) :
    (expect k context).run p =
      if p.current.kind = k then (some p.current, p.advance)
      else (none, p.report (.unexpected k context p.current)) := by
  simp only [expect, run_bind, run_current]
  split <;> rfl

theorem run_require (k : TokenKind) (context : String) (p : Parser) :
    (require k context).run p =
      (some (), if p.current.kind = k then p.advance else p.report (.unexpected k context p.current)) := by
  simp only [require, run_bind, run_attempt, run_expect, run_pure]
  split <;> rfl

end Parse

end Clite
