import Clite.Tree.Program
import Clite.Decimal.Reading
import Clite.Token

/-!
# The grammar

```text
program     := int main ( ) { {declaration} {statement} }
declaration := type identifier {, identifier} ;
statement   := ; | block | conditional | loop | assignment
block       := { {statement} }
conditional := if ( expression ) statement [else statement]
loop        := while ( expression ) statement
assignment  := identifier = expression
expression  := conjunction {|| conjunction}
conjunction := equality {&& equality}
equality    := relation [(== | !=) relation]
relation    := addition [(< | <= | > | >=) addition]
addition    := term {(+ | -) term}
term        := factor {(* | /) factor}
factor      := [! | -] primary
primary     := identifier | literal | ( expression ) | type ( expression )
```

A nonterminal is the relation between the terminals that it derives and the tree that they stand for.  Three
things are not in the productions: an integer literal denotes a number of 32 bits with sign, an `else` belongs to
the nearest `if` that can still take one, and parentheses, conversions and compound statements nest only so deep.
Nonterminals that nest are indexed by their `room`, the number of constructs that may still be opened.
-/

namespace Clite

/-- The kind and the lexeme of a token: all that the grammar sees of it. -/
abbrev Terminal := TokenKind × String

def Token.terminal (t : Token) : Terminal := (t.kind, t.lexeme)

/-- Which terminals stand for which trees. -/
abbrev Phrase (α : Type) := List Terminal → α → Prop

/-- A run of decimal digits and the number that it denotes. -/
inductive Decimal.Numeral : List Char → Nat → Prop
  | digit {c : Char} : c.isDigit → Numeral [c] (c.toNat - '0'.toNat)
  | append {s : List Char} {n : Nat} {c : Char} :
    Numeral s n → c.isDigit → Numeral (s ++ [c]) (10 * n + (c.toNat - '0'.toNat))

/-- Does the statement end in a conditional that could still take an `else`? -/
def Stmt.endsOpen : Stmt → Bool
  | ifThen _ _ => true
  | ifElse _ _ elseBranch => elseBranch.endsOpen
  | loop _ body => body.endsOpen
  | skip | block _ | assignment _ _ => false

namespace Grammar

/-- Any number of phrases, one behind the other. -/
def Repeated {α : Type} (Item : Phrase α) (w : List Terminal) (as : List α) : Prop :=
  ∃ items : List (List Terminal × α),
    w = items.flatMap (·.1) ∧ as = items.map (·.2) ∧ ∀ item ∈ items, Item item.1 item.2

theorem Repeated.nil {α : Type} {Item : Phrase α} : Repeated Item [] [] := ⟨[], rfl, rfl, nofun⟩

theorem Repeated.cons {α : Type} {Item : Phrase α} {u w : List Terminal} {a : α} {as : List α} (h : Item u a)
    (h' : Repeated Item w as) : Repeated Item (u ++ w) (a :: as) := by
  obtain ⟨items, rfl, rfl, hitems⟩ := h'
  exact ⟨(u, a) :: items, rfl, rfl, List.forall_mem_cons.2 ⟨h, hitems⟩⟩

/-! ### Expressions -/

/-- `operand {op operand}`, grouped to the left. -/
inductive Chain (ops : List BinaryOp) (Operand : Phrase Expr) : Phrase Expr
  | operand {w : List Terminal} {e : Expr} : Operand w e → Chain ops Operand w e
  | joined {u v : List Terminal} {left right : Expr} {op : BinaryOp} {s : String} :
    Chain ops Operand u left → op ∈ ops → Operand v right →
      Chain ops Operand (u ++ (.operator op, s) :: v) (.binary op left right)

/-- `operand [op operand]` -/
inductive Single (ops : List BinaryOp) (Operand : Phrase Expr) : Phrase Expr
  | operand {w : List Terminal} {e : Expr} : Operand w e → Single ops Operand w e
  | joined {u v : List Terminal} {left right : Expr} {op : BinaryOp} {s : String} :
    Operand u left → op ∈ ops → Operand v right →
      Single ops Operand (u ++ (.operator op, s) :: v) (.binary op left right)

inductive Factor (Primary : Phrase Expr) : Phrase Expr
  | plain {w : List Terminal} {e : Expr} : Primary w e → Factor Primary w e
  | not {w : List Terminal} {e : Expr} {s : String} :
    Primary w e → Factor Primary ((.bang, s) :: w) (.unary .not e)
  | negate {w : List Terminal} {e : Expr} {s : String} :
    Primary w e → Factor Primary ((.operator .sub, s) :: w) (.unary .negate e)

def Term (Primary : Phrase Expr) : Phrase Expr := Chain [.mul, .div] (Factor Primary)

def Addition (Primary : Phrase Expr) : Phrase Expr := Chain [.add, .sub] (Term Primary)

def Relation (Primary : Phrase Expr) : Phrase Expr :=
  Single [.less, .lessEqual, .greater, .greaterEqual] (Addition Primary)

def Equality (Primary : Phrase Expr) : Phrase Expr := Single [.equal, .notEqual] (Relation Primary)

def Conjunction (Primary : Phrase Expr) : Phrase Expr := Chain [.and] (Equality Primary)

def Disjunction (Primary : Phrase Expr) : Phrase Expr := Chain [.or] (Conjunction Primary)

/-- The literals and their values.  The value of a number with a point is the one that it is read to; the lexeme of
a character literal has no other character than its value. -/
inductive Literal : Terminal → Value → Prop
  | truth {b : Bool} {s : String} : Literal (.truth b, s) (.bool b)
  | int {s : String} {n : Nat} {v : Int32} :
    Decimal.Numeral s.toList n → n ≤ 2147483647 → v.toInt = n → Literal (.intLiteral, s) (.int v)
  | float {s : String} {x : Float} : Decimal.unsigned? s.toList = some x → Literal (.floatLiteral, s) (.float x)
  | char {s : String} {c : Char} : s.toList.head? = some c → Literal (.charLiteral, s) (.char c)

/-- A primary expression, given what stands in parentheses. -/
inductive PrimaryOver (Inner : Phrase Expr) : Phrase Expr
  | identifier {x : String} : PrimaryOver Inner [(.identifier, x)] (.var x)
  | literal {t : Terminal} {v : Value} : Literal t v → PrimaryOver Inner [t] (.literal v)
  | parenthesized {w : List Terminal} {e : Expr} (s₁ s₂ : String) :
    Inner w e → PrimaryOver Inner ((.leftParen, s₁) :: (w ++ [(.rightParen, s₂)])) e
  | conversion {w : List Terminal} {e : Expr} {type : Ty} (s₁ s₂ s₃ : String) :
    Inner w e → PrimaryOver Inner ((.typeName type, s₁) :: (.leftParen, s₂) :: (w ++ [(.rightParen, s₃)]))
      (.unary (.convert type) e)

/-- Where there is no room nothing may stand in parentheses. -/
def Primary : (room : Nat) → Phrase Expr
  | 0 => PrimaryOver fun _ _ => False
  | room + 1 => PrimaryOver (Disjunction (Primary room))

def Expression (room : Nat) : Phrase Expr := Disjunction (Primary room)

/-! ### Statements and programs -/

/-- A conditional or a loop encloses its test as well as its branches. -/
inductive Statement : (room : Nat) → Phrase Stmt
  | skip {room : Nat} {s : String} : Statement room [(.semicolon, s)] .skip
  | assignment {room : Nat} {w : List Terminal} {x s : String} {e : Expr} :
    Expression room w e → Statement room ((.identifier, x) :: (.assign, s) :: w) (.assignment x e)
  | block {room : Nat} {members : List (List Terminal × Stmt)} (s₁ s₂ : String) :
    (∀ member ∈ members, Statement room member.1 member.2) →
      Statement (room + 1) ((.leftBrace, s₁) :: (members.flatMap (·.1) ++ [(.rightBrace, s₂)]))
        (.block (members.map (·.2)))
  | ifThen {room : Nat} {u v : List Terminal} {test : Expr} {thenBranch : Stmt} (s₁ s₂ s₃ : String) :
    Expression room u test → Statement room v thenBranch →
      Statement (room + 1) ((.ifWord, s₁) :: (.leftParen, s₂) :: (u ++ (.rightParen, s₃) :: v))
        (.ifThen test thenBranch)
  | ifElse {room : Nat} {u v w : List Terminal} {test : Expr} {thenBranch elseBranch : Stmt}
      (s₁ s₂ s₃ s₄ : String) :
    Expression room u test → Statement room v thenBranch → thenBranch.endsOpen = false →
      Statement room w elseBranch →
      Statement (room + 1)
        ((.ifWord, s₁) :: (.leftParen, s₂) :: (u ++ (.rightParen, s₃) :: (v ++ (.elseWord, s₄) :: w)))
        (.ifElse test thenBranch elseBranch)
  | loop {room : Nat} {u v : List Terminal} {test : Expr} {body : Stmt} (s₁ s₂ s₃ : String) :
    Expression room u test → Statement room v body →
      Statement (room + 1) ((.whileWord, s₁) :: (.leftParen, s₂) :: (u ++ (.rightParen, s₃) :: v))
        (.loop test body)

/-- `identifier {, identifier}` -/
inductive Names : Phrase (List String)
  | one {x : String} : Names [(.identifier, x)] [x]
  | more {w : List Terminal} {xs : List String} {x s : String} :
    Names w xs → Names ((.identifier, x) :: (.comma, s) :: w) (x :: xs)

inductive Declaration : Phrase (List Decl)
  | intro {w : List Terminal} {xs : List String} {type : Ty} (s₁ s₂ : String) :
    Names w xs → Declaration ((.typeName type, s₁) :: (w ++ [(.semicolon, s₂)])) (xs.map (⟨·, type⟩))

inductive Program : Phrase Clite.Program
  | intro {u v : List Terminal} {declarations : List (List Decl)} {body : List Stmt}
      (s₁ s₂ s₃ s₄ s₅ s₆ : String) :
    Repeated Declaration u declarations → Repeated (Statement 64) v body →
      Program ([(.typeName .int, s₁), (.mainWord, s₂), (.leftParen, s₃), (.rightParen, s₄), (.leftBrace, s₅)] ++
        u ++ v ++ [(.rightBrace, s₆)]) ⟨declarations.flatten, body⟩

end Grammar

end Clite
