import Clite.Parser.Session

/-!
# Descent with a counter

The procedures once more, as programs that call each other with no bound on what is opened given in advance: a variable
counts how many constructs are open, and one more is entered as long as the count allows it.  A run has room for so many
calls that have not returned, and does not end if it needs more.  Here nothing says that there is ever room enough, nor
that the count stays within its limit and comes back to what it was; this is shown of them, and that they read the same.
-/

namespace Clite

structure Descent.State where
  parser : Parser
  /-- the constructs that are open -/
  depth : Nat
  /-- the most that have been open at once -/
  deepest : Nat

/-- A run that may not end. -/
abbrev Descent (α : Type) := StateT Descent.State Option α

/-- Does the level take any number of operators? -/
def Level.repeats : Level → Bool
  | equality | relation => false
  | disjunction | conjunction | addition | term => true

namespace Descent

variable {α : Type}

/-- A parser with nothing open. -/
def State.fresh (p : Parser) : State := ⟨p, 0, 0⟩

/-- From `s` on the procedure ends, with `a` and in `s'`, once there is room for enough calls. -/
def Ends (m : Nat → Descent α) (s : State) (a : α) (s' : State) : Prop :=
  ∃ enough, ∀ calls, enough ≤ calls → (m calls).run s = some (a, s')

/-! ### Elementary procedures -/

def look : Descent Parser := return (← get).parser

/-- A procedure that opens no construct. -/
def act (m : Parse α) : Descent (Option α) :=
  modifyGet fun s => ((m.run s.parser).1, { s with parser := (m.run s.parser).2 })

/-- Skips what is left of a statement. -/
def skip : (calls : Nat) → Descent Unit
  | 0 => failure
  | calls + 1 => do
    if (← look).atBoundary then return
    else
      let _ ← act .take
      skip calls

/-- Opens a construct. -/
def enter : Descent Unit :=
  modify fun s => { s with depth := s.depth + 1, deepest := max s.deepest (s.depth + 1) }

/-- Closes a construct. -/
def leave : Descent Unit := modify fun s => { s with depth := s.depth - 1 }

/-- What `m` does is one construct.  If too many are open already it is reported, and what is left of the statement is
skipped. -/
def nested (m : Descent (Option α)) (calls : Nat) : Descent (Option α) := do
  if maxNesting ≤ (← get).depth then
    let _ : Option Unit ← act (.fail fun t => .nestingTooDeep maxNesting t.position)
    skip calls
    return none
  else
    enter
    let result ← m
    leave
    return result

/-! ### Expressions -/

mutual

/-- An expression with no operator that binds less tightly than `level`. -/
def atLevel (level : Level) : (calls : Nat) → Descent (Option Expr)
  | 0 => failure
  | calls + 1 => do
    let some left ← operand level calls | return none
    if level.repeats then further level left calls
    else
      match (← look).operator? level with
      | none => return some left
      | some op =>
        let _ ← act .take
        let some right ← operand level calls | return none
        return some (.binary op left right)

/-- The operands that follow `left`, each behind an operator of `level`. -/
def further (level : Level) (left : Expr) : (calls : Nat) → Descent (Option Expr)
  | 0 => failure
  | calls + 1 => do
    match (← look).operator? level with
    | none => return some left
    | some op =>
      let _ ← act .take
      let some right ← operand level calls | return none
      further level (.binary op left right) calls

/-- What the operators of `level` stand between. -/
def operand (level : Level) : (calls : Nat) → Descent (Option Expr)
  | 0 => failure
  | calls + 1 =>
    match level with
    | .disjunction => atLevel .conjunction calls
    | .conjunction => atLevel .equality calls
    | .equality => atLevel .relation calls
    | .relation => atLevel .addition calls
    | .addition => atLevel .term calls
    | .term => factor calls

def factor : (calls : Nat) → Descent (Option Expr)
  | 0 => failure
  | calls + 1 => do
    match (← look).current.kind.prefixOp? with
    | some op =>
      let _ ← act .take
      let some e ← primary calls | return none
      return some (.unary op e)
    | none => primary calls

def primary : (calls : Nat) → Descent (Option Expr)
  | 0 => failure
  | calls + 1 => do
    match (← look).current.kind with
    | .identifier =>
      let some name ← act .take | return none
      return some (.var name.lexeme)
    | .intLiteral | .floatLiteral | .charLiteral | .truth _ =>
      let some v ← act .literal | return none
      return some (.literal v)
    | .leftParen => nested (parenthesized calls) calls
    | .typeName _ => nested (conversion calls) calls
    | _ => act (.fail .expectedPrimary)

def parenthesized : (calls : Nat) → Descent (Option Expr)
  | 0 => failure
  | calls + 1 => do
    let _ ← act .take
    let some e ← atLevel .disjunction calls | return none
    let _ ← act (.require .rightParen "parenthesized expression")
    return some e

def conversion : (calls : Nat) → Descent (Option Expr)
  | 0 => failure
  | calls + 1 => do
    let some target ← act .typeName | return none
    let _ ← act (.require .leftParen "type conversion")
    let some e ← atLevel .disjunction calls | return none
    let _ ← act (.require .rightParen "type conversion")
    return some (.unary (.convert target) e)

end

def expression (calls : Nat) : Descent (Option Expr) := atLevel .disjunction calls

/-! ### Statements -/

def test (context : String) (calls : Nat) : Descent (Option Expr) := do
  let _ ← act (.require .leftParen context)
  let e ← expression calls
  let _ ← act (.require .rightParen context)
  return e

def assignment (calls : Nat) : Descent (Option Stmt) := do
  let some target ← act (.expect .identifier "assignment") | return none
  let some _ ← act (.expect .assign "assignment") | return none
  let some e ← expression calls | return none
  return some (.assignment target.lexeme e)

mutual

def statement : (calls : Nat) → Descent (Option Stmt)
  | 0 => failure
  | calls + 1 => do
    match (← look).current.kind with
    | .semicolon =>
      let _ ← act .take
      return some .skip
    | .leftBrace => nested (block calls) calls
    | .ifWord => nested (conditional calls) calls
    | .whileWord => nested (loop calls) calls
    | .identifier => assignment calls
    | _ => act .stray

/-- The statements up to the end of the list, behind those already found, which are given last one first. -/
def statements (found : List Stmt) : (calls : Nat) → Descent (List Stmt)
  | 0 => failure
  | calls + 1 => do
    if (← look).atListEnd then return found.reverse
    else
      let s ← statement calls
      statements (s.toList ++ found) calls

def block : (calls : Nat) → Descent (Option Stmt)
  | 0 => failure
  | calls + 1 => do
    let _ ← act (.require .leftBrace "block")
    let members ← statements [] calls
    let _ ← act (.require .rightBrace "block")
    return some (.block members)

def conditional : (calls : Nat) → Descent (Option Stmt)
  | 0 => failure
  | calls + 1 => do
    let _ ← act (.require .ifWord "if statement")
    let condition ← test "if statement" calls
    let thenBranch ← statement calls
    let some found ← act (.accept .elseWord) | return none
    if found then
      let some elseBranch ← statement calls | return none
      pure do return .ifElse (← condition) (← thenBranch) elseBranch
    else
      pure do return .ifThen (← condition) (← thenBranch)

def loop : (calls : Nat) → Descent (Option Stmt)
  | 0 => failure
  | calls + 1 => do
    let _ ← act (.require .whileWord "while statement")
    let condition ← test "while statement" calls
    let body ← statement calls
    pure do return .loop (← condition) (← body)

end

/-! ### Programs -/

/-- The names up to the first that no comma follows, behind those already read, which are given last one first. -/
def names (found : List String) : (calls : Nat) → Descent (List String)
  | 0 => failure
  | calls + 1 => do
    let some name ← act (.expect .identifier "declaration") | return found.reverse
    if (← look).current.kind = .comma then
      let _ ← act .take
      names (name.lexeme :: found) calls
    else return (name.lexeme :: found).reverse

def declaration (calls : Nat) : Descent (Option (List Decl)) := do
  let some type ← act .typeName | return none
  let names ← names [] calls
  let _ ← act (.require .semicolon "declaration")
  return some (names.map (⟨·, type⟩))

/-- The variables declared up to the first token that is no type name, behind those already declared, which are given
last one first. -/
def declarations (found : List Decl) : (calls : Nat) → Descent (List Decl)
  | 0 => failure
  | calls + 1 => do
    if (← look).current.kind.isTypeName then
      let ds ← declaration calls
      declarations ((ds.getD []).reverse ++ found) calls
    else return found.reverse

def program (calls : Nat) : Descent (Option Program) := do
  let _ ← act (.require (.typeName .int) "program header")
  let _ ← act (.require .mainWord "program header")
  let _ ← act (.require .leftParen "program header")
  let _ ← act (.require .rightParen "program header")
  let _ ← act (.require .leftBrace "program body")
  let declarations ← declarations [] calls
  let body ← statements [] calls
  let _ ← act (.require .rightBrace "program body")
  let _ ← act (.require .endOfFile "program")
  let _ ← act (.noteProgram declarations.length body.length)
  return some ⟨declarations, body⟩

end Descent

/-- Reads a construct from where a parser stands, with the constructs open that are counted. -/
def Construct.descend : Construct → (calls : Nat) → Descent Fragment
  | program, calls => return .program ((← Descent.program calls).getD .empty)
  | declarations, calls => return .declarations (← Descent.declarations [] calls)
  | statements, calls => return .statements (← Descent.statements [] calls)
  | statement, calls => return .statement (← Descent.statement calls)
  | expression, calls => return .expression (← Descent.expression calls)
  | level l, calls => return .expression (← Descent.atLevel l calls)
  | factor, calls => return .expression (← Descent.factor calls)
  | primary, calls => return .expression (← Descent.primary calls)

/-- Reads constructs one after the other. -/
def Descent.readAll (constructs : List Construct) (calls : Nat) : Descent (List Fragment) :=
  constructs.mapM fun c => c.descend calls

end Clite
