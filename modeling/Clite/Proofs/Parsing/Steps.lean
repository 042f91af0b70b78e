import Clite.Proofs.Parsing.Descent

/-!
# Parsing step by step

Whatever parsing does is made up of steps, and each step has its reason in the token that the parser looks at
(`Parser.Proceeds`).  A token is consumed; but a closing brace is consumed only behind the opening brace of its block, or
at the end of a program.  An error is reported; but only one that blames the token (`SyntaxError.Blames`), because it is
not of the kind that the grammar requires here, begins nothing that may stand here, opens one construct too many, or is a
literal without a value.  All constructs are read in such steps (`Construct.proceeds_readIn`), so what the steps preserve
is preserved by all of parsing.
-/

namespace Clite

namespace TokenKind

def beginsStatement : TokenKind → Bool
  | semicolon | leftBrace | ifWord | whileWord | identifier => true
  | _ => false

def beginsPrimary : TokenKind → Bool
  | identifier | intLiteral | floatLiteral | charLiteral | truth _ | leftParen | typeName _ => true
  | _ => false

/-- Does a construct that nests begin with a token of this kind? -/
def opensConstruct : TokenKind → Bool
  | leftParen | typeName _ | leftBrace | ifWord | whileWord => true
  | _ => false

end TokenKind

namespace SyntaxError

/-- The kinds of tokens that are asked for where another may stand, each with the construct that requires it. -/
def requirements : List (TokenKind × String) :=
  [(.typeName .int, "program header"), (.mainWord, "program header"), (.leftParen, "program header"),
    (.rightParen, "program header"), (.leftBrace, "program body"), (.rightBrace, "program body"), (.endOfFile, "program"),
    (.identifier, "declaration"), (.semicolon, "declaration"), (.rightBrace, "block"), (.leftParen, "if statement"),
    (.rightParen, "if statement"), (.leftParen, "while statement"), (.rightParen, "while statement"),
    (.assign, "assignment"), (.rightParen, "parenthesized expression"), (.leftParen, "type conversion"),
    (.rightParen, "type conversion")]

/-- The error is a reason to complain of the token. -/
inductive Blames : SyntaxError → Token → Prop
  | unexpected {k : TokenKind} {context : String} {t : Token} :
    (k, context) ∈ requirements → t.kind ≠ k → Blames (.unexpected k context t) t
  | expectedStatement {t : Token} : t.kind.beginsStatement = false → Blames (.expectedStatement t) t
  | expectedPrimary {t : Token} : t.kind.beginsPrimary = false → Blames (.expectedPrimary t) t
  | invalidLiteral {t : Token} :
    t.kind.isLiteral → Value.ofToken? t = none → Blames (.invalidLiteral t.kind t.lexeme t.position) t
  | nestingTooDeep {t : Token} : t.kind.opensConstruct → Blames (.nestingTooDeep maxNesting t.position) t

theorem Blames.position_eq {e : SyntaxError} {t : Token} (h : e.Blames t) : e.position = t.position := by
  cases h <;> rfl

end SyntaxError

namespace Parser

variable {closes : Prop} {p q r : Parser}

/-- Parsing goes on from `p` to `q` in steps that have their reasons.  Where `closes` holds, closing braces may be consumed
that close no block. -/
inductive Proceeds (closes : Prop) : Parser → Parser → Prop
  | refl (p : Parser) : Proceeds closes p p
  | trans {p q r : Parser} : Proceeds closes p q → Proceeds closes q r → Proceeds closes p r
  | advance {p : Parser} : (p.current.kind = .rightBrace → closes) → Proceeds closes p p.advance
  /-- a closing brace is consumed behind what follows the opening one -/
  | block {p q : Parser} : p.current.kind = .leftBrace → Proceeds closes p.advance q → q.current.kind = .rightBrace →
    Proceeds closes p q.advance
  | report {p : Parser} {e : SyntaxError} : e.Blames p.current → Proceeds closes p (p.report e)
  /-- a literal is consumed in front of the report -/
  | reject {p : Parser} {e : SyntaxError} : p.current.kind.isLiteral → e.Blames p.current →
    Proceeds closes p (p.advance.report e)
  | noteProgram (p : Parser) (declarations statements : Nat) :
    Proceeds closes p (p.noteProgram declarations statements)

theorem Proceeds.reaches (h : p.Proceeds closes q) : p.Reaches q := by
  induction h with
  | refl => exact .refl
  | trans _ _ ih ih' => exact ih.trans ih'
  | advance _ => exact .advance .refl
  | block _ _ _ ih => exact .advance (.trans (.advance .refl) ih)
  | report he => exact .report .refl he.position_eq
  | reject _ he => exact .reject .refl he.position_eq
  | noteProgram p ds ss => exact .noteProgram ds ss .refl

theorem proceeds_advance {k : TokenKind} (hk : k ≠ .rightBrace) (hp : p.current.kind = k) :
    p.Proceeds closes p.advance :=
  .advance fun h => absurd (hp.symm.trans h) hk

/-- What is skipped ends in front of a closing brace. -/
theorem proceeds_skipToBoundary (p : Parser) : p.Proceeds closes p.skipToBoundary := by
  fun_induction skipToBoundary p with
  | case1 p _ => exact .refl p
  | case2 p hend ih =>
    simp only [atBoundary, Bool.or_eq_true, decide_eq_true_eq, not_or] at hend
    exact (proceeds_advance hend.1.2 rfl).trans ih

end Parser

namespace Parse

open Clite.Parser SyntaxError

variable {α β : Type} {closes : Prop}

/-- The procedure goes on in steps that have their reasons. -/
def Proceeds (closes : Prop) (m : Parse α) : Prop := ∀ p : Parser, p.Proceeds closes (m.run p).2

/-- The same of a procedure that is begun at a token of kind `k`. -/
def ProceedsAt (closes : Prop) (k : TokenKind) (m : Parse α) : Prop :=
  ∀ p : Parser, p.current.kind = k → p.Proceeds closes (m.run p).2

variable {m : Parse α} {f : α → Parse β} {k : TokenKind} {context : String}

private theorem proceeds_bind {p : Parser} (hm : p.Proceeds closes (m.run p).2) (hf : ∀ a, (f a).Proceeds closes) :
    p.Proceeds closes ((m >>= f).run p).2 := by
  rw [run_bind]
  split
  · next hrun =>
    rw [hrun] at hm
    exact hm
  · next a q hrun =>
    rw [hrun] at hm
    exact hm.trans (hf a q)

theorem Proceeds.bind (hm : m.Proceeds closes) (hf : ∀ a, (f a).Proceeds closes) : (m >>= f).Proceeds closes :=
  fun p => proceeds_bind (hm p) hf

theorem ProceedsAt.bind (hm : m.ProceedsAt closes k) (hf : ∀ a, (f a).Proceeds closes) :
    (m >>= f).ProceedsAt closes k :=
  fun p hp => proceeds_bind (hm p hp) hf

theorem proceeds_pure (a : α) : (pure a : Parse α).Proceeds closes := fun p => .refl p

theorem proceeds_ofOption (a? : Option α) : (ofOption a?).Proceeds closes := by
  intro p
  rw [run_ofOption]
  exact .refl p

theorem Proceeds.attempt (h : m.Proceeds closes) : m.attempt.Proceeds closes := h

theorem proceedsAt_take (hk : k ≠ .rightBrace) : take.ProceedsAt closes k := fun _ hp => proceeds_advance hk hp

/-- A token of the kind that the procedure is begun at is there. -/
theorem proceedsAt_expect (hk : k ≠ .rightBrace) (context : String) : (expect k context).ProceedsAt closes k := by
  intro p hp
  rw [run_expect, if_pos hp]
  exact proceeds_advance hk hp

theorem proceedsAt_require (hk : k ≠ .rightBrace) (context : String) : (require k context).ProceedsAt closes k :=
  ProceedsAt.bind (m := attempt (expect k context)) (proceedsAt_expect hk context) fun _ => proceeds_pure ()

/-- A token may be missing where it is required. -/
theorem proceeds_expect (hk : k = .rightBrace → closes) (hrequired : (k, context) ∈ requirements) :
    (expect k context).Proceeds closes := by
  intro p
  rw [run_expect]
  split
  · next hp => exact .advance fun h => hk (hp.symm.trans h)
  · next hp => exact .report (.unexpected hrequired hp)

theorem proceeds_require (hk : k = .rightBrace → closes) (hrequired : (k, context) ∈ requirements) :
    (require k context).Proceeds closes :=
  (proceeds_expect hk hrequired).attempt.bind fun _ => proceeds_pure ()

theorem proceeds_accept (hk : k ≠ .rightBrace) : (accept k).Proceeds closes := by
  intro p
  rw [run_accept]
  split
  · next hp => exact proceeds_advance hk hp
  · exact .refl p

theorem proceedsAt_tooDeep (hk : k.opensConstruct = true) : (tooDeep : Parse α).ProceedsAt closes k := by
  intro p hp
  have hblames : (nestingTooDeep maxNesting p.current.position).Blames p.current := .nestingTooDeep (by rw [hp, hk])
  exact (Parser.Proceeds.report hblames).trans (proceeds_skipToBoundary _)

/-! ### Expressions -/

private theorem kind_ne_of_operator? {p : Parser} {level : Level} {op : BinaryOp} (h : p.operator? level = some op) :
    p.current.kind ≠ .rightBrace := by
  intro hk
  simp [operator?, hk, TokenKind.binaryOp?] at h

section Levels

variable {operand primary : Parse Expr}

private theorem proceeds_chainFrom (h : operand.Proceeds closes) (level : Level) (left : Expr) (p : Parser) :
    p.Proceeds closes (chainFrom level operand left p).2 := by
  fun_induction chainFrom level operand left p with
  | case1 left p _ => exact .refl p
  | case2 left p op hop q hr =>
    have hoperand := h p.advance
    rw [hr] at hoperand
    exact (proceeds_advance (kind_ne_of_operator? hop) rfl).trans hoperand
  | case3 left p op hop right q hr ih =>
    have hoperand := h p.advance
    rw [hr] at hoperand
    exact (proceeds_advance (kind_ne_of_operator? hop) rfl).trans (hoperand.trans ih)

theorem Proceeds.chain (h : operand.Proceeds closes) (level : Level) : (chain level operand).Proceeds closes :=
  h.bind fun left => proceeds_chainFrom h level left

theorem Proceeds.single (h : operand.Proceeds closes) (level : Level) : (single level operand).Proceeds closes := by
  refine h.bind fun left p => ?_
  have hstill : (operatorAt level).run p = (some (p.operator? level), p) := rfl
  rw [run_bind, hstill]
  dsimp only
  split
  · exact .refl p
  · next op hop =>
    exact (proceedsAt_take (kind_ne_of_operator? hop)).bind (fun _ => h.bind fun _ => proceeds_pure _) p rfl

theorem Proceeds.factorOver (h : primary.Proceeds closes) : (factorOver primary).Proceeds closes := by
  intro p
  simp only [Parse.factorOver, run_bind, run_current]
  split
  · next op hop =>
    have hk : p.current.kind ≠ .rightBrace := by
      intro hk
      rw [hk] at hop
      cases hop
    exact (proceedsAt_take hk).bind (fun _ => h.bind fun _ => proceeds_pure _) p rfl
  · exact h p

theorem Proceeds.levelOver (h : primary.Proceeds closes) (level : Level) : (levelOver primary level).Proceeds closes := by
  have hterm := h.factorOver.chain .term
  have haddition := hterm.chain .addition
  have hrelation := haddition.single .relation
  have hequality := hrelation.single .equality
  have hconjunction := hequality.chain .conjunction
  cases level with
  | term => exact hterm
  | addition => exact haddition
  | relation => exact hrelation
  | equality => exact hequality
  | conjunction => exact hconjunction
  | disjunction => exact hconjunction.chain .disjunction

end Levels

section Primary

variable {inner : Parse Expr}

/-- A literal has a value, or it is to blame that it has none. -/
theorem proceedsAt_literal (hk : k.isLiteral ∨ ∃ b, k = .truth b) : literal.ProceedsAt closes k := by
  intro p hp
  have hadvance : p.Proceeds closes p.advance := by
    refine proceeds_advance ?_ hp
    rintro rfl
    simp [TokenKind.isLiteral] at hk
  simp only [literal]
  split
  · exact hadvance
  · next hvalue =>
    have hliteral : p.current.kind.isLiteral := by
      rcases hk with hk | ⟨b, rfl⟩
      · rw [hp, hk]
      · simp [Value.ofToken?, hp] at hvalue
    exact .reject hliteral (.invalidLiteral hliteral hvalue)

theorem proceedsAt_typeName (type : Ty) : typeName.ProceedsAt closes (.typeName type) := by
  intro p hp
  simp only [typeName, run_bind, run_current, hp, TokenKind.type?]
  exact proceeds_advance (by simp) hp

theorem Proceeds.parenthesized (h : inner.Proceeds closes) : (parenthesized inner).ProceedsAt closes .leftParen := by
  refine (proceedsAt_take (by decide)).bind fun _ => ?_
  refine h.bind fun e => ?_
  exact (proceeds_require (by simp) (by decide)).bind fun _ => proceeds_pure e

theorem Proceeds.conversion (h : inner.Proceeds closes) (type : Ty) :
    (conversion inner).ProceedsAt closes (.typeName type) := by
  refine (proceedsAt_typeName type).bind fun target => ?_
  refine (proceeds_require (by simp) (by decide)).bind fun _ => ?_
  refine h.bind fun e => ?_
  exact (proceeds_require (by simp) (by decide)).bind fun _ => proceeds_pure _

theorem proceeds_primaryOver {parenthesized conversion : Parse Expr} (hp : parenthesized.ProceedsAt closes .leftParen)
    (hc : ∀ type, conversion.ProceedsAt closes (.typeName type)) :
    (primaryOver parenthesized conversion).Proceeds closes := by
  have hliteral {k : TokenKind} (hk : k.isLiteral ∨ ∃ b, k = .truth b) :
      (do return Expr.literal (← literal)).ProceedsAt closes k :=
    (proceedsAt_literal hk).bind fun _ => proceeds_pure _
  intro p
  simp only [primaryOver, run_bind, run_current]
  split
  · next h => exact (proceedsAt_take (by decide)).bind (fun _ => proceeds_pure _) p h
  · next h => exact hliteral (.inl rfl) p h
  · next h => exact hliteral (.inl rfl) p h
  · next h => exact hliteral (.inl rfl) p h
  · next b h => exact hliteral (.inr ⟨b, rfl⟩) p h
  · next h => exact hp p h
  · next type h => exact hc type p h
  · next h =>
    refine .report (.expectedPrimary ?_)
    unfold TokenKind.beginsPrimary
    split <;> simp_all

theorem proceeds_primaryIn (room : Nat) : (primaryIn room).Proceeds closes := by
  induction room with
  | zero => exact proceeds_primaryOver (proceedsAt_tooDeep rfl) fun _ => proceedsAt_tooDeep rfl
  | succ room ih =>
    have hinner := ih.levelOver .disjunction
    exact proceeds_primaryOver hinner.parenthesized hinner.conversion

theorem proceeds_expressionIn (room : Nat) : (expressionIn room).Proceeds closes :=
  (proceeds_primaryIn room).levelOver .disjunction

end Primary

/-! ### Statements -/

section Statements

variable {statement : Parse Stmt} {hadv : statement.Advances} {expression : Parse Expr}

private theorem proceeds_statementsOnto (h : statement.Proceeds closes) (found : List Stmt) (p : Parser) :
    p.Proceeds closes (statementsOnto statement hadv found p).2 := by
  fun_induction statementsOnto statement hadv found p with
  | case1 found p _ => exact .refl p
  | case2 found p hend r ih => exact (h p).trans ih

theorem Proceeds.statementsOver (h : statement.Proceeds closes) : (statementsOver statement hadv).Proceeds closes :=
  fun p => proceeds_statementsOnto h [] p

/-- A block closes what it has opened. -/
theorem Proceeds.block {statements : Parse (List Stmt)} (h : statements.Proceeds closes) :
    (block statements).ProceedsAt closes .leftBrace := by
  intro p hp
  have hopen : p.Proceeds closes p.advance := proceeds_advance (by decide) hp
  have hmembers := h p.advance
  simp only [Parse.block, run_bind, run_require, if_pos hp]
  split
  · next q hrun =>
    rw [hrun] at hmembers
    exact hopen.trans hmembers
  · next members q hrun =>
    rw [hrun] at hmembers
    simp only [run_pure]
    split
    · next hclose => exact .block hp hmembers hclose
    · next hclose => exact (hopen.trans hmembers).trans (.report (.unexpected (by decide) hclose))

theorem Proceeds.test (h : expression.Proceeds closes) (hl : (.leftParen, context) ∈ requirements)
    (hr : (.rightParen, context) ∈ requirements) : (test expression context).Proceeds closes := by
  refine (proceeds_require (by simp) hl).bind fun _ => ?_
  refine h.attempt.bind fun e => ?_
  exact (proceeds_require (by simp) hr).bind fun _ => proceeds_ofOption e

private theorem proceeds_assembled (condition : Option Expr) (branch : Option Stmt) (assemble : Expr → Stmt → Stmt) :
    (do return assemble (← ofOption condition) (← ofOption branch) : Parse Stmt).Proceeds closes :=
  (proceeds_ofOption condition).bind fun _ => (proceeds_ofOption branch).bind fun _ => proceeds_pure _

theorem Proceeds.conditional (he : expression.Proceeds closes) (h : statement.Proceeds closes) :
    (conditional expression statement).ProceedsAt closes .ifWord := by
  refine (proceedsAt_require (by decide) _).bind fun _ => ?_
  refine (he.test (by decide) (by decide)).attempt.bind fun condition => ?_
  refine h.attempt.bind fun thenBranch => ?_
  refine (proceeds_accept (by decide)).bind fun found => ?_
  cases found with
  | true => exact h.bind fun elseBranch => proceeds_assembled condition thenBranch (.ifElse · · elseBranch)
  | false => exact proceeds_assembled condition thenBranch .ifThen

theorem Proceeds.loop (he : expression.Proceeds closes) (h : statement.Proceeds closes) :
    (loop expression statement).ProceedsAt closes .whileWord := by
  refine (proceedsAt_require (by decide) _).bind fun _ => ?_
  refine (he.test (by decide) (by decide)).attempt.bind fun condition => ?_
  exact h.attempt.bind fun body => proceeds_assembled condition body .loop

theorem Proceeds.assignment (h : expression.Proceeds closes) : (assignment expression).ProceedsAt closes .identifier := by
  refine (proceedsAt_expect (by decide) _).bind fun target => ?_
  refine (proceeds_expect (by simp) (by decide)).bind fun _ => ?_
  exact h.bind fun e => proceeds_pure _

/-- A stray token is consumed unless it is a closing brace. -/
private theorem proceeds_stray {p : Parser} (h : p.current.kind.beginsStatement = false) :
    p.Proceeds closes (stray.run p).2 := by
  have hreport : p.Proceeds closes (p.report (.expectedStatement p.current)) := .report (.expectedStatement h)
  simp only [stray]
  split
  · exact hreport
  · next hend =>
    have hk : (p.report (.expectedStatement p.current)).current.kind ≠ .rightBrace := by
      intro hk
      simp [atListEnd, show p.current.kind = .rightBrace from hk] at hend
    exact hreport.trans (proceeds_advance hk rfl)

theorem proceeds_statementOver {block conditional loop assignment : Parse Stmt} (hb : block.ProceedsAt closes .leftBrace)
    (hc : conditional.ProceedsAt closes .ifWord) (hl : loop.ProceedsAt closes .whileWord)
    (ha : assignment.ProceedsAt closes .identifier) :
    (statementOver block conditional loop assignment).Proceeds closes := by
  intro p
  simp only [statementOver, run_bind, run_current]
  split
  · next h => exact (proceedsAt_take (by decide)).bind (fun _ => proceeds_pure _) p h
  · next h => exact hb p h
  · next h => exact hc p h
  · next h => exact hl p h
  · next h => exact ha p h
  · refine proceeds_stray ?_
    unfold TokenKind.beginsStatement
    split <;> simp_all

theorem proceeds_statementIn (room : Nat) : (statementIn room).1.Proceeds closes := by
  induction room with
  | zero =>
    exact proceeds_statementOver (proceedsAt_tooDeep rfl) (proceedsAt_tooDeep rfl) (proceedsAt_tooDeep rfl)
      (proceeds_expressionIn 0).assignment
  | succ room ih =>
    have he : (expressionIn room).Proceeds closes := proceeds_expressionIn room
    exact proceeds_statementOver ih.statementsOver.block (he.conditional ih) (he.loop ih)
      (proceeds_expressionIn (room + 1)).assignment

end Statements

/-! ### Declarations and programs -/

private theorem proceeds_namesOnto (found : List String) (p : Parser) :
    p.Proceeds closes (namesOnto found p).2 := by
  have hname {q r : Parser} {name? : Option Token} (hrun : (expect .identifier "declaration").run q = (name?, r)) :
      q.Proceeds closes r := by
    have hexpect : (expect .identifier "declaration").Proceeds closes := proceeds_expect (by simp) (by decide)
    have hproceeds := hexpect q
    rwa [hrun] at hproceeds
  fun_induction namesOnto found p with
  | case1 found p q h => exact hname h
  | case2 found p name q h hcomma ih => exact ((hname h).trans (proceeds_advance (by decide) hcomma)).trans ih
  | case3 found p name q h _ => exact hname h

theorem proceedsAt_declaration (type : Ty) : declaration.ProceedsAt closes (.typeName type) := by
  have hnames : names.Proceeds closes := fun p => proceeds_namesOnto [] p
  refine (proceedsAt_typeName type).bind fun type => ?_
  refine hnames.bind fun xs => ?_
  exact (proceeds_require (by simp) (by decide)).bind fun _ => proceeds_pure _

private theorem proceeds_declarationsOnto (found : List Decl) (p : Parser) :
    p.Proceeds closes (declarationsOnto found p).2 := by
  fun_induction declarationsOnto found p with
  | case1 found p htype r ih =>
    have hdeclaration : p.Proceeds closes r.2 := by
      unfold TokenKind.isTypeName at htype
      split at htype
      · next type hk => exact proceedsAt_declaration type p hk
      · cases htype
    exact hdeclaration.trans ih
  | case2 found p _ => exact .refl p

theorem proceeds_declarations : declarations.Proceeds closes := fun p => proceeds_declarationsOnto [] p

theorem Proceeds.programOver {statements : Parse (List Stmt)} (h : statements.Proceeds closes) (hcloses : closes) :
    (Descent.programOver statements).Proceeds closes := by
  -- the five tokens of the header
  iterate 5 refine (proceeds_require (by simp) (by decide)).bind fun _ => ?_
  refine proceeds_declarations.bind fun ds => ?_
  refine h.bind fun body => ?_
  refine (proceeds_require (fun _ => hcloses) (by decide)).bind fun _ => ?_
  refine (proceeds_require (by simp) (by decide)).bind fun _ => ?_
  exact Proceeds.bind (m := noteProgram ds.length body.length) (fun p => .noteProgram p _ _) fun _ => proceeds_pure _

end Parse

/-! ### Constructs -/

/-- Only a program closes a block that it has not opened: the brace at its end is consumed even if the one at its
beginning is missing. -/
theorem Construct.proceeds_readIn {closes : Prop} (c : Construct) (hcloses : c = .program → closes) (room : Nat)
    (p : Parser) : p.Proceeds closes (c.readIn room p).2 := by
  have hprimary : (Parse.primaryIn room).Proceeds closes := Parse.proceeds_primaryIn room
  have hstatement : (Parse.statementIn room).1.Proceeds closes := Parse.proceeds_statementIn room
  cases c with
  | program => exact hstatement.statementsOver.programOver (hcloses rfl) p
  | declarations => exact Parse.proceeds_declarations p
  | statements => exact hstatement.statementsOver p
  | statement => exact hstatement p
  | expression => exact Parse.proceeds_expressionIn room p
  | level l => exact hprimary.levelOver l p
  | factor => exact hprimary.factorOver p
  | primary => exact hprimary p

end Clite
