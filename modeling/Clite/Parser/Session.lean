import Clite.Parser.Program

/-!
# Parsing sessions

A parser can be asked for one construct after the other.  Each time it goes on from where it stands, and what it
has reported stays in its log.
-/

namespace Clite

/-- What a parser can be asked for. -/
inductive Construct where
  | program
  | declarations
  | statements
  | statement
  | expression
  /-- an expression with no operator that binds less tightly than this level -/
  | level (level : Level)
  | factor
  | primary
  deriving DecidableEq, Repr

/-- What comes back; a statement or an expression may not be there to be read. -/
inductive Fragment where
  | program (program : Program)
  | declarations (declarations : List Decl)
  | statements (statements : List Stmt)
  | statement (statement? : Option Stmt)
  | expression (expression? : Option Expr)
  deriving DecidableEq

/-- The procedure of each level of binary operators. -/
def Parse.atLevel : Level → Parse Expr
  | .disjunction => disjunction
  | .conjunction => conjunction
  | .equality => equality
  | .relation => relation
  | .addition => addition
  | .term => term

/-- Reads a construct from where a parser stands. -/
def Construct.read (c : Construct) (p : Parser) : Fragment × Parser :=
  let expr (m : Parse Expr) : Fragment × Parser := let r := m.run p; (.expression r.1, r.2)
  match c with
  | program => let r := p.readProgram; (.program r.1, r.2)
  | declarations => let r := Parse.declarations.run p; (.declarations (r.1.getD []), r.2)
  | statements => let r := Parse.statements.run p; (.statements (r.1.getD []), r.2)
  | statement => let r := Parse.statement.run p; (.statement r.1, r.2)
  | expression => expr Parse.expression
  | level l => expr (Parse.atLevel l)
  | factor => expr Parse.factor
  | primary => expr Parse.primary

/-- Reads constructs one after the other. -/
def Parser.readAll (p : Parser) : List Construct → List Fragment × Parser
  | [] => ([], p)
  | c :: cs =>
    let (fragment, p) := c.read p
    let (fragments, p) := p.readAll cs
    (fragment :: fragments, p)

end Clite
