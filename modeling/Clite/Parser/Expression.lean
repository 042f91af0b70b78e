import Clite.Decimal.Reading
import Clite.Parser.Basic

/-!
# Parsing expressions

One procedure for each level of the grammar, loosest first:

```text
expression  := conjunction, joined by ||
conjunction := equality, joined by &&
equality    := relation [(== | !=) relation]
relation    := addition [(< | <= | > | >=) addition]
addition    := term, joined by + or -
term        := factor, joined by * or /
factor      := [! | -] primary
primary     := identifier | literal | ( expression ) | type ( expression )
```

Parentheses and conversions nest.  A procedure is told how many constructs may still be opened inside of it, its
`room`; where there is none left the construct is reported and skipped.
-/

namespace Clite

/-- The largest number of constructs that may be open at once: parentheses, conversions and compound
statements. -/
def maxNesting : Nat := 64

/-- The value that a literal denotes, if its type has such a value. -/
def Value.ofToken? (t : Token) : Option Value :=
  match t.kind with
  | .truth b => some (.bool b)
  | .intLiteral =>
    match Decimal.natural? t.lexeme.toList with
    | some n => if n ≤ 2147483647 then some (.int (Int32.ofNat n)) else none
    | none => none
  | .floatLiteral => (Decimal.unsigned? t.lexeme.toList).map .float
  | .charLiteral => t.lexeme.toList.head?.map .char
  | _ => none

namespace Parser

/-- The binary operator that the parser looks at, if it is one of a given level. -/
def operator? (p : Parser) (level : Level) : Option BinaryOp :=
  p.current.kind.binaryOp?.filter (·.level = level)

theorem size_advance_lt_of_operator? {p : Parser} {level : Level} {op : BinaryOp}
    (h : p.operator? level = some op) : p.advance.size < p.size := by
  apply size_advance_lt
  intro hk
  simp [operator?, hk, TokenKind.binaryOp?] at h

/-- Does the parser look at the end of a statement: a semicolon, a closing brace or the end of the file? -/
def atBoundary (p : Parser) : Bool :=
  p.current.kind = .semicolon || p.current.kind = .rightBrace || p.current.kind = .endOfFile

/-- Skips what is left of a statement. -/
def skipToBoundary (p : Parser) : Parser :=
  if p.atBoundary then p else p.advance.skipToBoundary
termination_by p.size
decreasing_by
  rename_i h
  exact size_advance_lt (by simp_all [atBoundary])

theorem reaches_skipToBoundary (p : Parser) : p.Reaches p.skipToBoundary := by
  fun_induction skipToBoundary p with
  | case1 => exact .refl
  | case2 p _ ih => exact .trans (.advance .refl) ih

end Parser

namespace Parse

open Clite.Parser

/-- In place of a construct for which there is no room. -/
def tooDeep {α : Type} : Parse α where
  run p := (none, (p.report (.nestingTooDeep maxNesting p.current.position)).skipToBoundary)
  reaches_run _ := .trans (.report .refl rfl) (reaches_skipToBoundary _)

/-- The operator of a given level that comes next, which stays where it is. -/
def operatorAt (level : Level) : Parse (Option BinaryOp) :=
  ⟨fun p => (some (p.operator? level), p), fun _ => .refl⟩

/-- Goes on behind the operand `left` while operators of the level follow, each with its right operand. -/
def chainFrom (level : Level) (operand : Parse Expr) (left : Expr) (p : Parser) : Option Expr × Parser :=
  match _h : p.operator? level with
  | none => (some left, p)
  | some op =>
    match _hr : operand.run p.advance with
    | (none, q) => (none, q)
    | (some right, q) => chainFrom level operand (.binary op left right) q
termination_by p.size
decreasing_by
  have hq := operand.size_run p.advance
  rw [_hr] at hq
  exact Nat.lt_of_le_of_lt hq (size_advance_lt_of_operator? _h)

theorem reaches_chainFrom (level : Level) (operand : Parse Expr) (left : Expr) (p : Parser) :
    p.Reaches (chainFrom level operand left p).2 := by
  fun_induction chainFrom level operand left p with
  | case1 => exact .refl
  | case2 left p op _ q hr =>
    have hq := operand.reaches_run p.advance
    rw [hr] at hq
    exact .trans (.advance .refl) hq
  | case3 left p op _ right q hr ih =>
    have hq := operand.reaches_run p.advance
    rw [hr] at hq
    exact .trans (.advance .refl) (hq.trans ih)

/-- Operands joined by operators of one level, grouped to the left. -/
def chain (level : Level) (operand : Parse Expr) : Parse Expr := do
  let left ← operand
  ⟨chainFrom level operand left, reaches_chainFrom level operand left⟩

/-- One operand, or two joined by an operator of the level. -/
def single (level : Level) (operand : Parse Expr) : Parse Expr := do
  let left ← operand
  match ← operatorAt level with
  | none => return left
  | some op =>
    let _ ← take
    return .binary op left (← operand)

/-- The literal that the parser looks at, which is consumed even if it denotes no value. -/
def literal : Parse Value where
  run p :=
    match Value.ofToken? p.current with
    | some v => (some v, p.advance)
    | none => (none, p.advance.report (.invalidLiteral p.current.kind p.current.lexeme p.current.position))
  reaches_run p := by
    split
    · exact .advance .refl
    · exact .reject .refl rfl

/-- One of the four type names. -/
def typeName : Parse Ty := do
  match (← current).kind.type? with
  | some type =>
    let _ ← take
    return type
  | none => fail .expectedType

/-- An expression in parentheses; a closing parenthesis that is missing is reported and done without. -/
def parenthesized (expression : Parse Expr) : Parse Expr := do
  let _ ← take
  let e ← expression
  require .rightParen "parenthesized expression"
  return e

/-- A conversion; parentheses that are missing are reported and done without. -/
def conversion (expression : Parse Expr) : Parse Expr := do
  let target ← typeName
  require .leftParen "type conversion"
  let operand ← expression
  require .rightParen "type conversion"
  return .unary (.convert target) operand

/-- A primary expression, given the procedures for the two that nest. -/
def primaryOver (parenthesized conversion : Parse Expr) : Parse Expr := do
  match (← current).kind with
  | .identifier => return .var (← take).lexeme
  | .intLiteral | .floatLiteral | .charLiteral | .truth _ => return .literal (← literal)
  | .leftParen => parenthesized
  | .typeName _ => conversion
  | _ => fail .expectedPrimary

/-! ### The levels over a given primary -/

def factorOver (primary : Parse Expr) : Parse Expr := do
  match (← current).kind.prefixOp? with
  | some op =>
    let _ ← take
    return .unary op (← primary)
  | none => primary

def termOver (primary : Parse Expr) : Parse Expr := chain .term (factorOver primary)

def additionOver (primary : Parse Expr) : Parse Expr := chain .addition (termOver primary)

def relationOver (primary : Parse Expr) : Parse Expr := single .relation (additionOver primary)

def equalityOver (primary : Parse Expr) : Parse Expr := single .equality (relationOver primary)

def conjunctionOver (primary : Parse Expr) : Parse Expr := chain .conjunction (equalityOver primary)

def disjunctionOver (primary : Parse Expr) : Parse Expr := chain .disjunction (conjunctionOver primary)

/-! ### The levels with room to nest -/

def primaryIn : (room : Nat) → Parse Expr
  | 0 => primaryOver tooDeep tooDeep
  | room + 1 =>
    let inner := disjunctionOver (primaryIn room)
    primaryOver (parenthesized inner) (conversion inner)

def expressionIn (room : Nat) : Parse Expr := disjunctionOver (primaryIn room)

/-! ### The levels as they stand outside of any construct -/

def primary : Parse Expr := primaryIn maxNesting

def factor : Parse Expr := factorOver primary

def term : Parse Expr := termOver primary

def addition : Parse Expr := additionOver primary

def relation : Parse Expr := relationOver primary

def equality : Parse Expr := equalityOver primary

def conjunction : Parse Expr := conjunctionOver primary

def disjunction : Parse Expr := disjunctionOver primary

def expression : Parse Expr := expressionIn maxNesting

end Parse

end Clite
