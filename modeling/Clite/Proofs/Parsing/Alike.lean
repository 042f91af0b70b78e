import Clite.Parser.Session
import Clite.Proofs.Lexing.Reports
import Clite.Proofs.Parsing.Grammar

/-!
# Parsing sees kinds and lexemes only

Two parsers are alike if they look at the same kind and lexeme, have the same kinds and lexemes before them, and have
reported the same syntax errors, if perhaps at other places (`Parser.Alike`).  A parsing procedure takes such parsers
through the same steps (`Parser.Lockstep`) and has the same result for both (`Parse.IgnoresPlaces`), so neither
positions nor what is written between the tokens bear on what is read.
-/

namespace Clite

/-- The same kind and lexeme, perhaps at different places. -/
def SameTerminal (t u : Token) : Prop := t.terminal = u.terminal

namespace SameTerminal

variable {t u : Token}

theorem kind (h : SameTerminal t u) : t.kind = u.kind := congrArg Prod.fst h

theorem lexeme (h : SameTerminal t u) : t.lexeme = u.lexeme := congrArg Prod.snd h

theorem text (h : SameTerminal t u) : t.text = u.text := by
  simp only [Token.text, h.kind, h.lexeme]

theorem value (h : SameTerminal t u) : Value.ofToken? t = Value.ofToken? u := by
  simp only [Value.ofToken?, h.kind, h.lexeme]

end SameTerminal

/-! ### Messages tell no places -/

namespace SyntaxError

variable {t u : Token}

theorem message_unexpected (h : SameTerminal t u) (k : TokenKind) (context : String) :
    (unexpected k context t).message = (unexpected k context u).message :=
  congrArg ("Expected " ++ k.text ++ " in " ++ context ++ ", found " ++ ·) h.text

theorem message_expectedStatement (h : SameTerminal t u) :
    (expectedStatement t).message = (expectedStatement u).message :=
  congrArg ("Expected statement, found " ++ ·) h.text

theorem message_expectedPrimary (h : SameTerminal t u) :
    (expectedPrimary t).message = (expectedPrimary u).message :=
  congrArg ("Expected primary expression, found " ++ ·) h.text

theorem message_expectedType (h : SameTerminal t u) : (expectedType t).message = (expectedType u).message :=
  congrArg ("Expected type, found " ++ ·) h.text

theorem message_invalidLiteral (h : SameTerminal t u) (place place' : Position) :
    (invalidLiteral t.kind t.lexeme place).message = (invalidLiteral u.kind u.lexeme place').message := by
  rw [h.kind, h.lexeme]
  rfl

end SyntaxError

namespace Lexer

/-- What the pieces still to be scanned stand for. -/
def terminals (l : Lexer) : List Terminal := l.pieces.filterMap Piece.token?

theorem terminal_next (l : Lexer) : l.next.1.terminal = l.terminals.headD (.endOfFile, "") := by
  rcases l.next_cases with ⟨hgaps, hn⟩ | ⟨gaps, piece, rest, kind, lexeme, hp, hgaps, ht, hn⟩
  · rw [hn, terminals, List.filterMap_eq_nil_iff.2 hgaps]
    rfl
  · rw [hn, terminals, hp, List.filterMap_append, List.filterMap_eq_nil_iff.2 hgaps, List.filterMap_cons_some ht]
    rfl

theorem terminals_next (l : Lexer) : l.next.2.terminals = l.terminals.tail := by
  rcases l.next_cases with ⟨hgaps, hn⟩ | ⟨gaps, piece, rest, kind, lexeme, hp, hgaps, ht, hn⟩
  · rw [hn, terminals, terminals, List.filterMap_eq_nil_iff.2 hgaps]
    rfl
  · rw [hn, terminals, terminals, hp, List.filterMap_append, List.filterMap_eq_nil_iff.2 hgaps,
      List.filterMap_cons_some ht]
    rfl

end Lexer

namespace Parser

/-- The messages of the syntax errors reported so far. -/
def syntaxMessages (p : Parser) : List String := p.lexer.syntaxDiagnostics.map Diagnostic.message

/-- The parsers differ in places and in what stands between tokens at most. -/
structure Alike (p q : Parser) : Prop where
  current : SameTerminal p.current q.current
  terminals : p.lexer.terminals = q.lexer.terminals
  messages : p.syntaxMessages = q.syntaxMessages

theorem syntaxMessages_advance (p : Parser) : p.advance.syntaxMessages = p.syntaxMessages := by
  rw [syntaxMessages, advance, Lexer.syntaxDiagnostics_next, syntaxMessages]

theorem syntaxMessages_report (p : Parser) (e : SyntaxError) :
    (p.report e).syntaxMessages = p.syntaxMessages ++ [e.message] := by
  simp [syntaxMessages, report, Lexer.syntaxDiagnostics, Event.syntactic?]

theorem syntaxMessages_noteProgram (p : Parser) (ds ss : Nat) :
    (p.noteProgram ds ss).syntaxMessages = p.syntaxMessages := by
  simp [syntaxMessages, noteProgram, Lexer.emit, Lexer.syntaxDiagnostics, Event.syntactic?]

theorem alike_ofLexer {l l' : Lexer} (h : l.terminals = l'.terminals)
    (hmessages : l.syntaxDiagnostics = l'.syntaxDiagnostics) : (ofLexer l).Alike (ofLexer l') where
  current := by rw [SameTerminal, ofLexer, ofLexer, Lexer.terminal_next, Lexer.terminal_next, h]
  terminals := by rw [ofLexer, ofLexer, Lexer.terminals_next, Lexer.terminals_next, h]
  messages := by
    rw [syntaxMessages, syntaxMessages, ofLexer, ofLexer, Lexer.syntaxDiagnostics_next, Lexer.syntaxDiagnostics_next,
      hmessages]

namespace Alike

variable {p q : Parser}

theorem advance (h : p.Alike q) : p.advance.Alike q.advance where
  current := by
    rw [SameTerminal, Parser.advance, Parser.advance, Lexer.terminal_next, Lexer.terminal_next, h.terminals]
  terminals := by rw [Parser.advance, Parser.advance, Lexer.terminals_next, Lexer.terminals_next, h.terminals]
  messages := by rw [syntaxMessages_advance, syntaxMessages_advance, h.messages]

theorem report (h : p.Alike q) {e e' : SyntaxError} (he : e.message = e'.message) :
    (p.report e).Alike (q.report e') where
  current := h.current
  terminals := h.terminals
  messages := by rw [syntaxMessages_report, syntaxMessages_report, h.messages, he]

theorem noteProgram (h : p.Alike q) (ds ss : Nat) : (p.noteProgram ds ss).Alike (q.noteProgram ds ss) where
  current := h.current
  terminals := h.terminals
  messages := by rw [syntaxMessages_noteProgram, syntaxMessages_noteProgram, h.messages]

end Alike

/-- From `p` and `q`, which are alike, the other two parsers are reached in the same steps: both go on to the next
token, or both report an error with the same message, each at its own token. -/
inductive Lockstep (p q : Parser) : Parser → Parser → Prop
  | start (h : p.Alike q) : Lockstep p q p q
  | advance {p' q' : Parser} (h : Lockstep p q p' q') : Lockstep p q p'.advance q'.advance
  | report {p' q' : Parser} {e e' : SyntaxError} (h : Lockstep p q p' q') (hp : e.position = p'.current.position)
    (hq : e'.position = q'.current.position) (he : e.message = e'.message) : Lockstep p q (p'.report e) (q'.report e')
  /-- an error at the token that is consumed -/
  | reject {p' q' : Parser} {e e' : SyntaxError} (h : Lockstep p q p' q') (hp : e.position = p'.current.position)
    (hq : e'.position = q'.current.position) (he : e.message = e'.message) :
    Lockstep p q (p'.advance.report e) (q'.advance.report e')
  | noteProgram {p' q' : Parser} (ds ss : Nat) (h : Lockstep p q p' q') :
    Lockstep p q (p'.noteProgram ds ss) (q'.noteProgram ds ss)

namespace Lockstep

variable {p₀ q₀ p q : Parser}

theorem alike (h : p₀.Lockstep q₀ p q) : p.Alike q := by
  induction h with
  | start h => exact h
  | advance _ ih => exact ih.advance
  | report _ _ _ he ih => exact ih.report he
  | reject _ _ _ he ih => exact ih.advance.report he
  | noteProgram ds ss _ ih => exact ih.noteProgram ds ss

theorem current (h : p₀.Lockstep q₀ p q) : SameTerminal p.current q.current := h.alike.current

theorem kind (h : p₀.Lockstep q₀ p q) : p.current.kind = q.current.kind := h.current.kind

theorem operator? (h : p₀.Lockstep q₀ p q) (level : Level) : p.operator? level = q.operator? level := by
  rw [Parser.operator?, Parser.operator?, h.kind]

theorem atBoundary (h : p₀.Lockstep q₀ p q) : p.atBoundary = q.atBoundary := by
  rw [Parser.atBoundary, Parser.atBoundary, h.kind]

theorem atListEnd (h : p₀.Lockstep q₀ p q) : p.atListEnd = q.atListEnd := by
  rw [Parser.atListEnd, Parser.atListEnd, h.kind]

theorem skipToBoundary (h : p₀.Lockstep q₀ p q) : p₀.Lockstep q₀ p.skipToBoundary q.skipToBoundary := by
  fun_induction Parser.skipToBoundary p generalizing q with
  | case1 p hend =>
    rw [Parser.skipToBoundary, if_pos (h.atBoundary ▸ hend)]
    exact h
  | case2 p hend ih =>
    rw [Parser.skipToBoundary.eq_def q, if_neg (h.atBoundary ▸ hend)]
    exact ih h.advance

end Lockstep

end Parser

namespace Parse

open Clite.Parser

variable {α β γ δ : Type}

/-- The two procedures take the same steps, and their results are related. -/
def Agrees (R : α → β → Prop) (m : Parse α) (n : Parse β) : Prop :=
  ∀ ⦃p₀ q₀ p q : Parser⦄, p₀.Lockstep q₀ p q →
    Option.Rel R (m.run p).1 (n.run q).1 ∧ p₀.Lockstep q₀ (m.run p).2 (n.run q).2

/-- The result of `m` does not hang on places, nor do its steps. -/
abbrev IgnoresPlaces (m : Parse α) : Prop := Agrees Eq m m

theorem Agrees.bind {R : α → β → Prop} {S : γ → δ → Prop} {m : Parse α} {n : Parse β} {f : α → Parse γ}
    {g : β → Parse δ} (h : Agrees R m n) (hf : ∀ a b, R a b → Agrees S (f a) (g b)) :
    Agrees S (m >>= f) (n >>= g) := by
  intro p₀ q₀ p q hpq
  obtain ⟨hresult, hsteps⟩ := h hpq
  rw [run_bind, run_bind]
  generalize m.run p = r at hresult hsteps
  generalize n.run q = s at hresult hsteps
  obtain ⟨a?, p'⟩ := r
  obtain ⟨b?, q'⟩ := s
  cases hresult with
  | none => exact ⟨.none, hsteps⟩
  | some hab => exact hf _ _ hab hsteps

theorem IgnoresPlaces.bind {m : Parse α} {f : α → Parse β} (h : m.IgnoresPlaces)
    (hf : ∀ a, (f a).IgnoresPlaces) : (m >>= f).IgnoresPlaces :=
  Agrees.bind h fun a _ hab => hab ▸ hf a

theorem agrees_pure {R : α → β → Prop} {a : α} {b : β} (h : R a b) :
    Agrees R (pure a : Parse α) (pure b : Parse β) := fun _ _ _ _ hpq => ⟨.some h, hpq⟩

/-- Results that are equal are related by equality. -/
theorem ignoresPlaces_iff {m : Parse α} :
    m.IgnoresPlaces ↔ ∀ ⦃p₀ q₀ p q : Parser⦄, p₀.Lockstep q₀ p q →
      (m.run p).1 = (m.run q).1 ∧ p₀.Lockstep q₀ (m.run p).2 (m.run q).2 := by
  have heq (a b : Option α) : Option.Rel Eq a b ↔ a = b := by
    constructor
    · rintro (⟨rfl⟩ | _) <;> rfl
    · rintro rfl
      cases a with
      | none => exact .none
      | some a => exact .some rfl
  simp only [IgnoresPlaces, Agrees, heq]

/-! ### The elementary procedures -/

theorem agrees_current : Agrees SameTerminal current current := fun _ _ _ _ hpq => ⟨.some hpq.current, hpq⟩

theorem agrees_take : Agrees SameTerminal take take := fun _ _ _ _ hpq => ⟨.some hpq.current, hpq.advance⟩

theorem agrees_fail {R : α → β → Prop} {error : Token → SyntaxError} (h : ∀ t, (error t).position = t.position)
    (hmessage : ∀ t u, SameTerminal t u → (error t).message = (error u).message) :
    Agrees R (fail error h : Parse α) (fail error h : Parse β) :=
  fun _ _ _ _ hpq => ⟨.none, hpq.report (h _) (h _) (hmessage _ _ hpq.current)⟩

/-- A procedure that goes on from the kind of the current token. -/
theorem agrees_current_bind {R : α → β → Prop} {f : Token → Parse α} {g : Token → Parse β}
    (h : ∀ t u, t.kind = u.kind → Agrees R (f t) (g u)) : Agrees R (current >>= f) (current >>= g) :=
  agrees_current.bind fun _ _ htu => h _ _ htu.kind

theorem ignoresPlaces_take_bind {f : Token → Parse α} (h : ∀ t u, SameTerminal t u → Agrees Eq (f t) (f u)) :
    (take >>= f).IgnoresPlaces := agrees_take.bind h

theorem agrees_expect (k : TokenKind) (context : String) :
    Agrees SameTerminal (expect k context) (expect k context) := by
  refine agrees_current_bind fun t u hkind => ?_
  rw [hkind]
  split
  · exact agrees_take
  · exact agrees_fail _ fun _ _ h => SyntaxError.message_unexpected h k context

theorem ignoresPlaces_ofOption (a : Option α) : (ofOption a).IgnoresPlaces := by
  cases a with
  | none => exact fun _ _ _ _ hpq => ⟨.none, hpq⟩
  | some a => exact agrees_pure rfl

theorem IgnoresPlaces.attempt {m : Parse α} (h : m.IgnoresPlaces) : m.attempt.IgnoresPlaces :=
  ignoresPlaces_iff.2 fun p₀ q₀ p q hpq => by
    obtain ⟨hresult, hsteps⟩ := ignoresPlaces_iff.1 h hpq
    exact ⟨congrArg some hresult, hsteps⟩

theorem ignoresPlaces_accept (k : TokenKind) : (accept k).IgnoresPlaces := by
  refine agrees_current_bind fun t u hkind => ?_
  rw [hkind]
  split
  · exact ignoresPlaces_take_bind fun _ _ _ => agrees_pure rfl
  · exact agrees_pure rfl

theorem ignoresPlaces_require (k : TokenKind) (context : String) : (require k context).IgnoresPlaces := by
  refine ignoresPlaces_iff.2 fun p₀ q₀ p q hpq => ?_
  have hsteps := (agrees_expect k context hpq).2
  exact ⟨rfl, hsteps⟩

theorem ignoresPlaces_noteProgram (ds ss : Nat) : (noteProgram ds ss).IgnoresPlaces :=
  fun _ _ _ _ hpq => ⟨.some rfl, .noteProgram ds ss hpq⟩

/-! ### Expressions -/

theorem ignoresPlaces_tooDeep : (tooDeep : Parse α).IgnoresPlaces :=
  fun p₀ q₀ p q hpq => by
    have hmessage : (SyntaxError.nestingTooDeep maxNesting p.current.position).message =
      (SyntaxError.nestingTooDeep maxNesting q.current.position).message := rfl
    exact ⟨.none, (hpq.report rfl rfl hmessage).skipToBoundary⟩

theorem ignoresPlaces_operatorAt (level : Level) : (operatorAt level).IgnoresPlaces :=
  ignoresPlaces_iff.2 fun _ _ _ _ hpq => ⟨congrArg some (hpq.operator? level), hpq⟩

theorem chainFrom_eq (level : Level) (operand : Parse Expr) (left : Expr) (p : Parser) :
    chainFrom level operand left p =
      match p.operator? level with
      | none => (some left, p)
      | some op =>
        match operand.run p.advance with
        | (none, q) => (none, q)
        | (some right, q) => chainFrom level operand (.binary op left right) q := by
  rw [chainFrom]
  split
  · next h => rw [h]
  · next op h =>
    rw [h]
    dsimp only
    split <;> next hr => rw [hr]

variable {level : Level} {operand primary : Parse Expr}

private theorem chainFrom_agrees (h : operand.IgnoresPlaces) (left : Expr) {p₀ q₀ p q : Parser}
    (hpq : p₀.Lockstep q₀ p q) :
    (chainFrom level operand left p).1 = (chainFrom level operand left q).1 ∧
      p₀.Lockstep q₀ (chainFrom level operand left p).2 (chainFrom level operand left q).2 := by
  fun_induction chainFrom level operand left p generalizing q with
  | case1 left p hop =>
    rw [chainFrom_eq, ← hpq.operator?, hop]
    exact ⟨rfl, hpq⟩
  | case2 left p op hop r hr =>
    obtain ⟨hresult, hsteps⟩ := ignoresPlaces_iff.1 h hpq.advance
    rw [hr] at hresult hsteps
    have hq : operand.run q.advance = (none, (operand.run q.advance).2) := Prod.ext hresult.symm rfl
    rw [chainFrom_eq, ← hpq.operator?, hop, hq]
    exact ⟨rfl, hsteps⟩
  | case3 left p op hop right r hr ih =>
    obtain ⟨hresult, hsteps⟩ := ignoresPlaces_iff.1 h hpq.advance
    rw [hr] at hresult hsteps
    have hq : operand.run q.advance = (some right, (operand.run q.advance).2) := Prod.ext hresult.symm rfl
    rw [chainFrom_eq level operand left q, ← hpq.operator?, hop, hq]
    exact ih hsteps

theorem IgnoresPlaces.chain (h : operand.IgnoresPlaces) (level : Level) : (chain level operand).IgnoresPlaces :=
  h.bind fun left => ignoresPlaces_iff.2 fun _ _ _ _ hpq => chainFrom_agrees h left hpq

theorem IgnoresPlaces.single (h : operand.IgnoresPlaces) (level : Level) : (single level operand).IgnoresPlaces := by
  refine h.bind fun left => (ignoresPlaces_operatorAt level).bind fun op? => ?_
  cases op? with
  | none => exact agrees_pure rfl
  | some op => exact ignoresPlaces_take_bind fun _ _ _ => h.bind fun right => agrees_pure rfl

theorem ignoresPlaces_literal : literal.IgnoresPlaces := by
  refine ignoresPlaces_iff.2 fun p₀ q₀ p q hpq => ?_
  simp only [literal, hpq.current.value]
  split
  · exact ⟨rfl, hpq.advance⟩
  · exact ⟨rfl, hpq.reject rfl rfl (SyntaxError.message_invalidLiteral hpq.current _ _)⟩

theorem ignoresPlaces_typeName : typeName.IgnoresPlaces := by
  refine agrees_current_bind fun t u hkind => ?_
  rw [hkind]
  split
  · exact ignoresPlaces_take_bind fun _ _ _ => agrees_pure rfl
  · exact agrees_fail _ fun _ _ h => SyntaxError.message_expectedType h

theorem IgnoresPlaces.parenthesized (h : operand.IgnoresPlaces) : (parenthesized operand).IgnoresPlaces := by
  refine ignoresPlaces_take_bind fun _ _ _ => ?_
  refine h.bind fun _ => ?_
  exact (ignoresPlaces_require _ _).bind fun _ => agrees_pure rfl

theorem IgnoresPlaces.conversion (h : operand.IgnoresPlaces) : (conversion operand).IgnoresPlaces := by
  refine ignoresPlaces_typeName.bind fun _ => ?_
  refine (ignoresPlaces_require _ _).bind fun _ => ?_
  refine h.bind fun _ => ?_
  exact (ignoresPlaces_require _ _).bind fun _ => agrees_pure rfl

theorem ignoresPlaces_primaryOver {parenthesized conversion : Parse Expr} (hp : parenthesized.IgnoresPlaces)
    (hc : conversion.IgnoresPlaces) : (primaryOver parenthesized conversion).IgnoresPlaces := by
  have hliteral : (do return Expr.literal (← literal)).IgnoresPlaces :=
    ignoresPlaces_literal.bind fun _ => agrees_pure rfl
  refine agrees_current_bind fun t u hkind => ?_
  rw [hkind]
  split
  · exact ignoresPlaces_take_bind fun t u h => agrees_pure (congrArg Expr.var h.lexeme)
  · exact hliteral
  · exact hliteral
  · exact hliteral
  · exact hliteral
  · exact hp
  · exact hc
  · exact agrees_fail _ fun _ _ h => SyntaxError.message_expectedPrimary h

theorem IgnoresPlaces.factorOver (h : primary.IgnoresPlaces) : (factorOver primary).IgnoresPlaces := by
  refine agrees_current_bind fun t u hkind => ?_
  rw [hkind]
  split
  · exact ignoresPlaces_take_bind fun _ _ _ => h.bind fun _ => agrees_pure rfl
  · exact h

theorem IgnoresPlaces.disjunctionOver (h : primary.IgnoresPlaces) : (disjunctionOver primary).IgnoresPlaces :=
  (((((h.factorOver.chain _).chain _).single _).single _).chain _).chain _

theorem ignoresPlaces_primaryIn (room : Nat) : (primaryIn room).IgnoresPlaces := by
  induction room with
  | zero => exact ignoresPlaces_primaryOver ignoresPlaces_tooDeep ignoresPlaces_tooDeep
  | succ room ih =>
    exact ignoresPlaces_primaryOver ih.disjunctionOver.parenthesized ih.disjunctionOver.conversion

theorem ignoresPlaces_expressionIn (room : Nat) : (expressionIn room).IgnoresPlaces :=
  (ignoresPlaces_primaryIn room).disjunctionOver

/-! ### Statements -/

section Statements

variable {statement : Parse Stmt} {hadv : statement.Advances} {expression : Parse Expr}

private theorem statementsOnto_agrees (h : statement.IgnoresPlaces) (found : List Stmt) {p₀ q₀ p q : Parser}
    (hpq : p₀.Lockstep q₀ p q) :
    (statementsOnto statement hadv found p).1 = (statementsOnto statement hadv found q).1 ∧
      p₀.Lockstep q₀ (statementsOnto statement hadv found p).2 (statementsOnto statement hadv found q).2 := by
  fun_induction statementsOnto statement hadv found p generalizing q with
  | case1 found p hend =>
    rw [statementsOnto, dif_pos (hpq.atListEnd ▸ hend)]
    exact ⟨rfl, hpq⟩
  | case2 found p hend r =>
    rename_i ih
    obtain ⟨hresult, hsteps⟩ := ignoresPlaces_iff.1 h hpq
    rw [statementsOnto.eq_def statement hadv found q, dif_neg (hpq.atListEnd ▸ hend)]
    dsimp only
    rw [← hresult]
    exact ih hsteps

theorem IgnoresPlaces.statementsOver (h : statement.IgnoresPlaces) : (statementsOver statement hadv).IgnoresPlaces :=
  ignoresPlaces_iff.2 fun _ _ _ _ hpq => by
    obtain ⟨hresult, hsteps⟩ := statementsOnto_agrees h [] hpq
    exact ⟨congrArg some hresult, hsteps⟩

theorem IgnoresPlaces.block {statements : Parse (List Stmt)} (h : statements.IgnoresPlaces) :
    (block statements).IgnoresPlaces := by
  refine (ignoresPlaces_require _ _).bind fun _ => ?_
  refine h.bind fun _ => ?_
  exact (ignoresPlaces_require _ _).bind fun _ => agrees_pure rfl

theorem IgnoresPlaces.test (h : expression.IgnoresPlaces) (context : String) :
    (test expression context).IgnoresPlaces := by
  refine (ignoresPlaces_require _ _).bind fun _ => ?_
  refine h.attempt.bind fun _ => ?_
  exact (ignoresPlaces_require _ _).bind fun _ => ignoresPlaces_ofOption _

/-- A statement that is put together of the test and the first branch, if both could be read. -/
private theorem ignoresPlaces_assembled (condition : Option Expr) (branch : Option Stmt)
    (assemble : Expr → Stmt → Stmt) :
    (do return assemble (← ofOption condition) (← ofOption branch) : Parse Stmt).IgnoresPlaces := by
  refine (ignoresPlaces_ofOption condition).bind fun _ => ?_
  exact (ignoresPlaces_ofOption branch).bind fun _ => agrees_pure rfl

theorem ignoresPlaces_conditional (he : expression.IgnoresPlaces) (h : statement.IgnoresPlaces) :
    (conditional expression statement).IgnoresPlaces := by
  refine (ignoresPlaces_require _ _).bind fun _ => ?_
  refine (he.test _).attempt.bind fun condition => ?_
  refine h.attempt.bind fun thenBranch => ?_
  refine (ignoresPlaces_accept _).bind fun found => ?_
  cases found with
  | true => exact h.bind fun elseBranch => ignoresPlaces_assembled condition thenBranch (.ifElse · · elseBranch)
  | false => exact ignoresPlaces_assembled condition thenBranch .ifThen

theorem ignoresPlaces_loop (he : expression.IgnoresPlaces) (h : statement.IgnoresPlaces) :
    (loop expression statement).IgnoresPlaces := by
  refine (ignoresPlaces_require _ _).bind fun _ => ?_
  refine (he.test _).attempt.bind fun condition => ?_
  exact h.attempt.bind fun body => ignoresPlaces_assembled condition body .loop

theorem IgnoresPlaces.assignment (h : expression.IgnoresPlaces) : (assignment expression).IgnoresPlaces := by
  refine (agrees_expect _ _).bind fun t u htu => ?_
  rw [htu.lexeme]
  refine (agrees_expect _ _).bind fun _ _ _ => ?_
  exact h.bind fun _ => agrees_pure rfl

theorem ignoresPlaces_stray : stray.IgnoresPlaces := by
  refine ignoresPlaces_iff.2 fun p₀ q₀ p q hpq => ?_
  have hreport := hpq.report rfl rfl (SyntaxError.message_expectedStatement hpq.current)
  simp only [stray, hpq.atListEnd]
  split
  · exact ⟨trivial, hreport⟩
  · exact ⟨trivial, hreport.advance⟩

theorem ignoresPlaces_statementOver {block conditional loop assignment : Parse Stmt} (hb : block.IgnoresPlaces)
    (hc : conditional.IgnoresPlaces) (hl : loop.IgnoresPlaces) (ha : assignment.IgnoresPlaces) :
    (statementOver block conditional loop assignment).IgnoresPlaces := by
  refine agrees_current_bind fun t u hkind => ?_
  rw [hkind]
  split
  · exact ignoresPlaces_take_bind fun _ _ _ => agrees_pure rfl
  · exact hb
  · exact hc
  · exact hl
  · exact ha
  · exact ignoresPlaces_stray

theorem ignoresPlaces_statementIn (room : Nat) : (statementIn room).1.IgnoresPlaces := by
  induction room with
  | zero =>
    exact ignoresPlaces_statementOver ignoresPlaces_tooDeep ignoresPlaces_tooDeep ignoresPlaces_tooDeep
      (ignoresPlaces_expressionIn 0).assignment
  | succ room ih =>
    have he := ignoresPlaces_expressionIn room
    exact ignoresPlaces_statementOver ih.statementsOver.block (ignoresPlaces_conditional he ih)
      (ignoresPlaces_loop he ih) (ignoresPlaces_expressionIn (room + 1)).assignment

end Statements

/-! ### Programs -/

theorem namesOnto_eq (found : List String) (p : Parser) :
    namesOnto found p =
      match (expect .identifier "declaration").run p with
      | (none, q) => (found.reverse, q)
      | (some name, q) =>
        if q.current.kind = .comma then namesOnto (name.lexeme :: found) q.advance
        else ((name.lexeme :: found).reverse, q) := by
  rw [namesOnto]
  split <;> next h => rw [h]

private theorem namesOnto_agrees (found : List String) {p₀ q₀ p q : Parser} (hpq : p₀.Lockstep q₀ p q) :
    (namesOnto found p).1 = (namesOnto found q).1 ∧ p₀.Lockstep q₀ (namesOnto found p).2 (namesOnto found q).2 := by
  have hname {p q : Parser} (hpq : p₀.Lockstep q₀ p q) := agrees_expect .identifier "declaration" hpq
  fun_induction namesOnto found p generalizing q with
  | case1 found p r h =>
    obtain ⟨hresult, hsteps⟩ := hname hpq
    rw [h] at hresult hsteps
    rw [namesOnto_eq]
    generalize (expect .identifier "declaration").run q = s at hresult hsteps
    obtain ⟨_, s⟩ := s
    cases hresult
    exact ⟨rfl, hsteps⟩
  | case2 found p name r h hcomma ih =>
    obtain ⟨hresult, hsteps⟩ := hname hpq
    rw [h] at hresult hsteps
    rw [namesOnto_eq found q]
    generalize (expect .identifier "declaration").run q = s at hresult hsteps
    obtain ⟨_, s⟩ := s
    cases hresult with
    | @some _ name' hsame =>
      have hlexeme : name.lexeme = name'.lexeme := hsame.lexeme
      dsimp only at hsteps ⊢
      rw [if_pos (hsteps.kind ▸ hcomma), ← hlexeme]
      exact ih hsteps.advance
  | case3 found p name r h hcomma =>
    obtain ⟨hresult, hsteps⟩ := hname hpq
    rw [h] at hresult hsteps
    rw [namesOnto_eq found q]
    generalize (expect .identifier "declaration").run q = s at hresult hsteps
    obtain ⟨_, s⟩ := s
    cases hresult with
    | @some _ name' hsame =>
      have hlexeme : name.lexeme = name'.lexeme := hsame.lexeme
      dsimp only at hsteps ⊢
      rw [if_neg (hsteps.kind ▸ hcomma), ← hlexeme]
      exact ⟨rfl, hsteps⟩

theorem ignoresPlaces_names : names.IgnoresPlaces :=
  ignoresPlaces_iff.2 fun _ _ _ _ hpq => by
    obtain ⟨hresult, hsteps⟩ := namesOnto_agrees [] hpq
    exact ⟨congrArg some hresult, hsteps⟩

theorem ignoresPlaces_declaration : declaration.IgnoresPlaces := by
  refine ignoresPlaces_typeName.bind fun _ => ?_
  refine ignoresPlaces_names.bind fun _ => ?_
  exact (ignoresPlaces_require _ _).bind fun _ => agrees_pure rfl

private theorem declarationsOnto_agrees (found : List Decl) {p₀ q₀ p q : Parser} (hpq : p₀.Lockstep q₀ p q) :
    (declarationsOnto found p).1 = (declarationsOnto found q).1 ∧
      p₀.Lockstep q₀ (declarationsOnto found p).2 (declarationsOnto found q).2 := by
  fun_induction declarationsOnto found p generalizing q with
  | case1 found p htype r =>
    rename_i ih
    obtain ⟨hresult, hsteps⟩ := ignoresPlaces_iff.1 ignoresPlaces_declaration hpq
    rw [declarationsOnto.eq_def found q, dif_pos (hpq.kind ▸ htype)]
    dsimp only
    rw [← hresult]
    exact ih hsteps
  | case2 found p htype =>
    rw [declarationsOnto, dif_neg (hpq.kind ▸ htype)]
    exact ⟨rfl, hpq⟩

theorem ignoresPlaces_declarations : declarations.IgnoresPlaces :=
  ignoresPlaces_iff.2 fun _ _ _ _ hpq => by
    obtain ⟨hresult, hsteps⟩ := declarationsOnto_agrees [] hpq
    exact ⟨congrArg some hresult, hsteps⟩

theorem ignoresPlaces_statements : statements.IgnoresPlaces := (ignoresPlaces_statementIn maxNesting).statementsOver

theorem ignoresPlaces_program : program.IgnoresPlaces := by
  -- the five tokens of the header
  iterate 5 refine (ignoresPlaces_require _ _).bind fun _ => ?_
  refine ignoresPlaces_declarations.bind fun _ => ?_
  refine ignoresPlaces_statements.bind fun _ => ?_
  refine (ignoresPlaces_require _ _).bind fun _ => ?_
  refine (ignoresPlaces_require _ _).bind fun _ => ?_
  exact (ignoresPlaces_noteProgram _ _).bind fun _ => agrees_pure rfl

/-! ### Sessions -/

theorem ignoresPlaces_atLevel (level : Level) : (atLevel level).IgnoresPlaces := by
  have hprimary := ignoresPlaces_primaryIn maxNesting
  cases level with
  | disjunction => exact hprimary.disjunctionOver
  | conjunction => exact ((((hprimary.factorOver.chain _).chain _).single _).single _).chain _
  | equality => exact (((hprimary.factorOver.chain _).chain _).single _).single _
  | relation => exact ((hprimary.factorOver.chain _).chain _).single _
  | addition => exact (hprimary.factorOver.chain _).chain _
  | term => exact hprimary.factorOver.chain _

end Parse

namespace Parser

variable {p₀ q₀ p q : Parser}

/-- What a procedure makes of its result is the same as well. -/
private theorem Lockstep.read_of {α : Type} {m : Parse α} (hm : m.IgnoresPlaces) (h : p₀.Lockstep q₀ p q)
    (f : Option α → Fragment) :
    f (m.run p).1 = f (m.run q).1 ∧ p₀.Lockstep q₀ (m.run p).2 (m.run q).2 := by
  obtain ⟨hresult, hsteps⟩ := Parse.ignoresPlaces_iff.1 hm h
  exact ⟨congrArg f hresult, hsteps⟩

/-- Parsers that are alike read the same construct, in the same steps. -/
theorem Lockstep.read (h : p₀.Lockstep q₀ p q) (c : Construct) :
    (c.read p).1 = (c.read q).1 ∧ p₀.Lockstep q₀ (c.read p).2 (c.read q).2 := by
  have hprimary := Parse.ignoresPlaces_primaryIn maxNesting
  cases c with
  | program => exact h.read_of Parse.ignoresPlaces_program fun r => .program (r.getD .empty)
  | declarations => exact h.read_of Parse.ignoresPlaces_declarations fun r => .declarations (r.getD [])
  | statements => exact h.read_of Parse.ignoresPlaces_statements fun r => .statements (r.getD [])
  | statement => exact h.read_of (Parse.ignoresPlaces_statementIn maxNesting) .statement
  | expression => exact h.read_of (Parse.ignoresPlaces_expressionIn maxNesting) .expression
  | level level => exact h.read_of (Parse.ignoresPlaces_atLevel level) .expression
  | factor => exact h.read_of hprimary.factorOver .expression
  | primary => exact h.read_of hprimary .expression

theorem Lockstep.readAll (h : p₀.Lockstep q₀ p q) (constructs : List Construct) :
    (p.readAll constructs).1 = (q.readAll constructs).1 ∧
      p₀.Lockstep q₀ (p.readAll constructs).2 (q.readAll constructs).2 := by
  induction constructs generalizing p q with
  | nil => exact ⟨rfl, h⟩
  | cons c cs ih =>
    obtain ⟨hfragment, hread⟩ := h.read c
    obtain ⟨hfragments, hsteps⟩ := ih hread
    exact ⟨congrArg₂ List.cons hfragment hfragments, hsteps⟩

end Parser

end Clite
