import Clite.Proofs.Parsing.Descent
import Clite.Proofs.Parsing.Remaining

/-!
# The limit of nesting

An assignment inside of conditionals, loops and blocks, its value inside of parentheses and conversions, is put together
of openers, of an innermost part, and of what closes the openers (`Inside`, `Nested`).  With room for all openers it is
a phrase of the grammar.  Otherwise the first opener for which there is no room is reported, the rest of the statement
is skipped up to the first closing brace, and each block that was entered finds a brace to close it
(`Nested.leaves_statementIn`), so nothing else is reported.
-/

namespace Clite

open Clite.Parser Clite.Grammar

/-- `Inside openers ts`: a variable inside of these parentheses and conversions, outermost first. -/
inductive Inside : List Token → List Token → Prop
  | name {x : Token} : x.kind = .identifier → Inside [] [x]
  | parenthesized {l r : Token} {openers ts : List Token} : l.kind = .leftParen → r.kind = .rightParen →
    Inside openers ts → Inside (l :: openers) (l :: (ts ++ [r]))
  | conversion {n l r : Token} {type : Ty} {openers ts : List Token} : n.kind = .typeName type → l.kind = .leftParen →
    r.kind = .rightParen → Inside openers ts → Inside (n :: openers) (n :: l :: (ts ++ [r]))

/-- `Nested openers ts`: an assignment inside of these blocks, conditionals and loops, outermost first, and behind them
the openers that its value is inside of. -/
inductive Nested : List Token → List Token → Prop
  | assignment {x sign : Token} {openers ts : List Token} : x.kind = .identifier → sign.kind = .assign →
    Inside openers ts → Nested openers (x :: sign :: ts)
  | block {l r : Token} {openers ts : List Token} : l.kind = .leftBrace → r.kind = .rightBrace → Nested openers ts →
    Nested (l :: openers) (l :: (ts ++ [r]))
  | test {word l b r : Token} {openers ts : List Token} : word.kind = .ifWord ∨ word.kind = .whileWord →
    l.kind = .leftParen → b.kind = .identifier → r.kind = .rightParen → Nested openers ts →
    Nested (word :: openers) (word :: l :: b :: r :: ts)

/-! ### With room for all -/

private theorem terminal_eq {t : Token} {k : TokenKind} (h : t.kind = k) : t.terminal = (k, t.lexeme) := by
  rw [← h]
  rfl

private theorem exists_room {opener : Token} {openers : List Token} {room : Nat}
    (h : (opener :: openers).length ≤ room) : ∃ inner, room = inner + 1 ∧ openers.length ≤ inner := by
  rw [List.length_cons] at h
  exact ⟨room - 1, by omega, by omega⟩

/-- What is a primary expression is an expression. -/
private theorem expression_of_primary {room : Nat} {w : List Terminal} {e : Expr} (h : Primary room w e) :
    Expression room w e :=
  .operand (.operand (.operand (.operand (.operand (.operand (.plain h))))))

theorem Inside.phrase {openers ts : List Token} (h : Inside openers ts) {room : Nat} (hroom : openers.length ≤ room) :
    ∃ e, Primary room (ts.map Token.terminal) e := by
  induction h generalizing room with
  | @name x hx =>
    refine ⟨.var x.lexeme, ?_⟩
    rw [List.map_singleton, terminal_eq hx]
    cases room <;> exact .identifier
  | @parenthesized l r openers ts hl hr _ ih =>
    obtain ⟨room, rfl, hinner⟩ := exists_room hroom
    obtain ⟨e, he⟩ := ih hinner
    refine ⟨e, ?_⟩
    rw [List.map_cons, List.map_append, List.map_singleton, terminal_eq hl, terminal_eq hr]
    exact .parenthesized _ _ (expression_of_primary he)
  | @conversion n l r type openers ts hn hl hr _ ih =>
    obtain ⟨room, rfl, hinner⟩ := exists_room hroom
    obtain ⟨e, he⟩ := ih hinner
    refine ⟨.unary (.convert type) e, ?_⟩
    rw [List.map_cons, List.map_cons, List.map_append, List.map_singleton, terminal_eq hn, terminal_eq hl,
      terminal_eq hr]
    exact .conversion _ _ _ (expression_of_primary he)

private theorem expression_of_identifier (room : Nat) (x : String) :
    Expression room [(.identifier, x)] (.var x) := by
  cases room <;> exact expression_of_primary .identifier

theorem Nested.phrase {openers ts : List Token} (h : Nested openers ts) {room : Nat} (hroom : openers.length ≤ room) :
    ∃ s, Statement room (ts.map Token.terminal) s := by
  induction h generalizing room with
  | @assignment x sign openers ts hx hsign hinside =>
    obtain ⟨e, he⟩ := hinside.phrase hroom
    refine ⟨.assignment x.lexeme e, ?_⟩
    rw [List.map_cons, List.map_cons, terminal_eq hx, terminal_eq hsign]
    exact .assignment (expression_of_primary he)
  | @block l r openers ts hl hr _ ih =>
    obtain ⟨room, rfl, hinner⟩ := exists_room hroom
    obtain ⟨s, hs⟩ := ih hinner
    have hmembers : ∀ member ∈ [(ts.map Token.terminal, s)], Statement room member.1 member.2 :=
      List.forall_mem_singleton.2 hs
    have hblock := Statement.block l.lexeme r.lexeme hmembers
    refine ⟨.block [s], ?_⟩
    rw [List.map_cons, List.map_append, List.map_singleton, terminal_eq hl, terminal_eq hr]
    simpa using hblock
  | @test word l b r openers ts hword hl hb hr _ ih =>
    obtain ⟨room, rfl, hinner⟩ := exists_room hroom
    obtain ⟨s, hs⟩ := ih hinner
    have he := expression_of_identifier room b.lexeme
    simp only [List.map_cons, terminal_eq hl, terminal_eq hb, terminal_eq hr]
    rcases hword with hword | hword <;> rw [terminal_eq hword]
    · exact ⟨_, .ifThen _ _ _ he hs⟩
    · exact ⟨_, .loop _ _ _ he hs⟩

/-! ### With too little room -/

/-- Does a statement that is skipped end in front of the token? -/
def Token.endsStatement (t : Token) : Bool := t.kind = .semicolon || t.kind = .rightBrace

/-- What is left when the rest of a statement is skipped. -/
def behindStatement (ts : List Token) : List Token := ts.dropWhile (!·.endsStatement)

theorem behindStatement_append {ts : List Token} (h : ∀ t ∈ ts, t.endsStatement = false) (rest : List Token) :
    behindStatement (ts ++ rest) = behindStatement rest :=
  List.dropWhile_append_of_pos fun t ht => by simp [h t ht]

/-- What is said of an opener for which there is no room. -/
def tooDeepAt (t : Token) : Diagnostic := ⟨"Nesting deeper than 64 levels", some t.position⟩

namespace Parser

variable {p : Parser}

theorem Regular.tokens_skipToBoundary (h : p.Regular) : p.skipToBoundary.tokens = behindStatement p.tokens := by
  fun_induction skipToBoundary p with
  | case1 p hend =>
    simp only [atBoundary, Bool.or_eq_true, decide_eq_true_eq] at hend
    by_cases hk : p.current.kind = .endOfFile
    · simp [tokens, hk, behindStatement]
    · have hstop : p.current.endsStatement = true := by simpa [Token.endsStatement, hk] using hend
      rw [h.tokens_of_kind hk, behindStatement, List.dropWhile_cons_of_neg (by simp [hstop])]
  | case2 p hend ih =>
    simp only [atBoundary, Bool.or_eq_true, decide_eq_true_eq, not_or] at hend
    have hgo : p.current.endsStatement = false := by simp [Token.endsStatement, hend]
    rw [ih h.advance, h.tokens_of_kind hend.2, behindStatement, behindStatement,
      List.dropWhile_cons_of_pos (by simp [hgo])]

theorem syntaxErrors_skipToBoundary (p : Parser) : p.skipToBoundary.syntaxErrors = p.syntaxErrors := by
  fun_induction skipToBoundary p with
  | case1 => rfl
  | case2 p _ ih => exact ih

end Parser

namespace Parse

variable {α : Type}

theorem leaves_tooDeep (t : Token) (rest : List Token) :
    (tooDeep : Parse α).Leaves (t :: rest) [tooDeepAt t] fun a? after =>
      a? = none ∧ after = behindStatement (t :: rest) := by
  intro p hreg hlex hp
  have hcurrent := (hreg.tokens_eq_cons hp).1
  have hrun : (tooDeep : Parse α).run p =
      (none, (p.report (.nestingTooDeep maxNesting p.current.position)).skipToBoundary) := rfl
  have hskip := reaches_skipToBoundary (p.report (.nestingTooDeep maxNesting p.current.position))
  have hdiagnostics : (p.report (.nestingTooDeep maxNesting p.current.position)).diagnostics =
      p.diagnostics ++ [tooDeepAt t] := by
    rw [(Adds.report p _).diagnostics, hcurrent]
    rfl
  rw [hrun]
  refine ⟨?_, rfl, ?_⟩
  · exact (hskip.diagnostics_eq_of_faultless hlex (syntaxErrors_skipToBoundary _)).trans hdiagnostics
  · rw [← hp]
    exact (hreg.report _).tokens_skipToBoundary

variable {new later : List Diagnostic} {t : Token} {rest : List Token}

/-- The kind of the token that comes next selects what is done. -/
theorem leaves_current_bind {f : Token → Parse α} {post : Option α → List Token → Prop}
    (hf : ∀ u : Token, u.kind = t.kind → (f u).Leaves (t :: rest) new post) :
    (current >>= f).Leaves (t :: rest) new post := by
  intro p hreg hlex hp
  exact hf p.current (by rw [(hreg.tokens_eq_cons hp).1]) p hreg hlex hp

theorem leaves_take_bind {f : Token → Parse α} {post : Option α → List Token → Prop}
    (hf : ∀ u : Token, (f u).Leaves rest new post) : (take >>= f).Leaves (t :: rest) new post :=
  (succeeds_take.imp fun _ _ h => h.2).leaves_bind (List.suffix_cons t rest) hf

theorem leaves_expect_bind {k : TokenKind} (ht : t.kind = k) (context : String) {f : Token → Parse α}
    {post : Option α → List Token → Prop} (hf : ∀ u : Token, (f u).Leaves rest new post) :
    (expect k context >>= f).Leaves (t :: rest) new post := by
  refine Succeeds.leaves_bind ?_ (List.suffix_cons t rest) hf
  rw [List.map_cons, terminal_eq ht]
  exact succeeds_expect.imp fun _ _ h => h.2

theorem leaves_require_bind {k : TokenKind} (ht : t.kind = k) (context : String) {f : Unit → Parse α}
    {post : Option α → List Token → Prop} (hf : (f ()).Leaves rest new post) :
    (require k context >>= f).Leaves (t :: rest) new post := by
  refine Succeeds.leaves_bind ?_ (List.suffix_cons t rest) fun _ => hf
  rw [List.map_cons, terminal_eq ht]
  exact succeeds_require

theorem leaves_typeName_bind {type : Ty} (ht : t.kind = .typeName type) {f : Ty → Parse α}
    {post : Option α → List Token → Prop} (hf : ∀ type, (f type).Leaves rest new post) :
    (typeName >>= f).Leaves (t :: rest) new post := by
  refine Succeeds.leaves_bind ?_ (List.suffix_cons t rest) hf
  rw [List.map_cons, terminal_eq ht]
  exact (succeeds_typeName _ _ _).imp fun _ _ h => h.2

section Expressions

variable {before : List Token} {post : List Token → Prop} {primary : Parse Expr}

/-- A primary expression that fails makes all levels above it fail. -/
theorem leaves_disjunctionOver (ht : t.kind.prefixOp? = none)
    (h : primary.Leaves (t :: rest) new fun e? after => e? = none ∧ post after) :
    (disjunctionOver primary).Leaves (t :: rest) new fun e? after => e? = none ∧ post after := by
  have hfactor : (factorOver primary).Leaves (t :: rest) new fun e? after => e? = none ∧ post after := by
    refine leaves_current_bind fun u hu => ?_
    rw [hu, ht]
    exact h
  exact (((((hfactor.bind_none _).bind_none _).bind_none _).bind_none _).bind_none _).bind_none _

end Expressions

end Parse

/-! ### Expressions that nest too deep -/

namespace Inside

variable {openers ts : List Token}

/-- A primary expression holds nothing that ends a statement. -/
theorem endsStatement_eq (h : Inside openers ts) : ∀ t ∈ ts, t.endsStatement = false := by
  induction h with
  | name hx => simp [Token.endsStatement, hx]
  | parenthesized hl hr _ ih => simpa [Token.endsStatement, hl, hr, or_imp, forall_and] using ih
  | conversion hn hl hr _ ih => simpa [Token.endsStatement, hn, hl, hr, or_imp, forall_and] using ih

/-- It begins with a token that is no prefix operator. -/
theorem exists_cons (h : Inside openers ts) : ∃ t rest, ts = t :: rest ∧ t.kind.prefixOp? = none := by
  cases h with
  | name hx => exact ⟨_, _, rfl, by rw [hx]; rfl⟩
  | parenthesized hl => exact ⟨_, _, rfl, by rw [hl]; rfl⟩
  | conversion hn => exact ⟨_, _, rfl, by rw [hn]; rfl⟩

open Parse

/-- All levels fail where the primary expression does. -/
private theorem leaves_expression_of_primary (h : Inside openers ts) {room : Nat} {new : List Diagnostic}
    {rest : List Token} {post : List Token → Prop}
    (hprimary : (primaryIn room).Leaves (ts ++ rest) new fun e? after => e? = none ∧ post after) :
    (expressionIn room).Leaves (ts ++ rest) new fun e? after => e? = none ∧ post after := by
  obtain ⟨t, more, rfl, ht⟩ := h.exists_cons
  exact leaves_disjunctionOver ht hprimary

/-- The first opener for which there is no room is reported, and what is left of the statement is skipped. -/
theorem leaves_primaryIn (h : Inside openers ts) {room : Nat} {o : Token} (ho : openers[room]? = some o)
    (rest : List Token) :
    (primaryIn room).Leaves (ts ++ rest) [tooDeepAt o] fun e? after => e? = none ∧ after = behindStatement rest := by
  have hskip := behindStatement_append h.endsStatement_eq rest
  induction room generalizing openers ts rest with
  | zero =>
    cases h with
    | name hx => cases ho
    | @parenthesized l r openers ts hl hr hinside =>
      obtain rfl := Option.some.inj ho
      rw [List.cons_append] at hskip ⊢
      refine leaves_current_bind fun u hu => ?_
      rw [hu, hl, ← hskip]
      exact leaves_tooDeep _ _
    | @conversion n l r type openers ts hn hl hr hinside =>
      obtain rfl := Option.some.inj ho
      rw [List.cons_append] at hskip ⊢
      refine leaves_current_bind fun u hu => ?_
      rw [hu, hn, ← hskip]
      exact leaves_tooDeep _ _
  | succ room ih =>
    have hinner {openers ts : List Token} {r : Token} (hinside : Inside openers ts) (hr : r.kind = .rightParen)
        (ho : openers[room]? = some o) :
        (expressionIn room).Leaves (ts ++ r :: rest) [tooDeepAt o] fun e? after =>
          e? = none ∧ after = behindStatement rest := by
      have hclose : behindStatement (r :: rest) = behindStatement rest :=
        List.dropWhile_cons_of_pos (by simp [Token.endsStatement, hr])
      have hprimary := ih hinside ho (r :: rest) (behindStatement_append hinside.endsStatement_eq _)
      rw [hclose] at hprimary
      exact hinside.leaves_expression_of_primary hprimary
    cases h with
    | name hx => cases ho
    | @parenthesized l r openers ts hl hr hinside =>
      rw [List.cons_append, List.append_assoc]
      refine leaves_current_bind fun u hu => ?_
      rw [hu, hl]
      refine leaves_take_bind fun _ => ?_
      exact (hinner hinside hr ho).bind_none _
    | @conversion n l r type openers ts hn hl hr hinside =>
      rw [List.cons_append, List.cons_append, List.append_assoc]
      refine leaves_current_bind fun u hu => ?_
      rw [hu, hn]
      refine leaves_typeName_bind hn fun _ => ?_
      refine leaves_require_bind hl _ ?_
      exact (hinner hinside hr ho).bind_none _

theorem leaves_expressionIn (h : Inside openers ts) {room : Nat} {o : Token} (ho : openers[room]? = some o)
    (rest : List Token) :
    (expressionIn room).Leaves (ts ++ rest) [tooDeepAt o] fun e? after => e? = none ∧ after = behindStatement rest :=
  h.leaves_expression_of_primary (h.leaves_primaryIn ho rest)

end Inside

/-! ### Statements that nest too deep -/

def AllBraces (ts : List Token) : Prop := ∀ t ∈ ts, t.kind = .rightBrace

theorem allBraces_nil : AllBraces [] := nofun

theorem AllBraces.append {ts us : List Token} (h : AllBraces ts) (h' : AllBraces us) : AllBraces (ts ++ us) :=
  List.forall_mem_append.2 ⟨h, h'⟩

/-- In front of braces there is nothing to be skipped. -/
theorem AllBraces.behindStatement_eq {ts : List Token} (h : AllBraces ts) : behindStatement ts = ts := by
  cases ts with
  | nil => rfl
  | cons t ts =>
    have hstop : t.endsStatement = true := by simp [Token.endsStatement, h t (List.mem_cons_self ..)]
    exact List.dropWhile_cons_of_neg (by simp [hstop])

theorem AllBraces.kind_current {p : Parser} (h : AllBraces p.tokens) :
    p.current.kind = .rightBrace ∨ p.current.kind = .endOfFile := by
  unfold Parser.tokens at h
  split at h
  · next hend => exact .inr hend
  · exact .inl (h _ (List.mem_cons_self ..))

namespace Parse

variable {new : List Diagnostic} {before rest : List Token}

/-- The tokens left are those of `rest`, and perhaps some closing braces in front of them. -/
def LeavesBraces (m : Parse Stmt) (before : List Token) (new : List Diagnostic) (rest : List Token) : Prop :=
  m.Leaves before new fun _ after => ∃ closers, AllBraces closers ∧ after = closers ++ rest

/-- The list of statements is at its end behind the first one. -/
theorem leaves_statementsOver {statement : Parse Stmt} {hadv : statement.Advances} {t : Token} {ts : List Token}
    (ht : t.kind ∈ statementKinds) (h : statement.LeavesBraces (t :: ts) new rest) (hrest : AllBraces rest) :
    (statementsOver statement hadv).Leaves (t :: ts) new fun ss? after => ∃ ss, ss? = some ss ∧
      ∃ closers, AllBraces closers ∧ after = closers ++ rest := by
  intro p hreg hlex hp
  obtain ⟨hnew, closers, hclosers, hafter⟩ := h p hreg hlex hp
  have hstart : ¬ p.atListEnd = true := by
    have hkinds : ∀ k ∈ statementKinds, k ≠ .rightBrace ∧ k ≠ .endOfFile := by decide
    have hk := hkinds _ ht
    rw [← (hreg.tokens_eq_cons hp).1] at hk
    simp [atListEnd, hk]
  have hend : (statement.run p).2.atListEnd = true := by
    have hbraces : AllBraces (statement.run p).2.tokens := hafter ▸ hclosers.append hrest
    rcases hbraces.kind_current with hk | hk <;> simp [atListEnd, hk]
  have hrun : (statementsOver statement hadv).run p =
      (some (statement.run p).1.toList.reverse, (statement.run p).2) := by
    rw [statementsOver]
    dsimp only
    rw [statementsOnto, dif_neg hstart, statementsOnto, dif_pos hend, List.append_nil]
  rw [hrun]
  exact ⟨hnew, _, rfl, closers, hclosers, hafter⟩

theorem leaves_accept_else (h : AllBraces before) :
    (accept .elseWord).Leaves before [] fun found? after => ∃ found, found? = some found ∧
      found = false ∧ after = before := by
  intro p _ _ hp
  have hk : ¬ p.current.kind = .elseWord := by
    rcases (hp ▸ h : AllBraces p.tokens).kind_current with hk | hk <;> simp [hk]
  rw [run_accept, if_neg hk, List.append_nil]
  exact ⟨rfl, false, rfl, rfl, hp⟩

/-- Putting a statement together leaves the parser as it is. -/
private theorem leaves_assembled (condition : Option Expr) (branch : Option Stmt) (assemble : Expr → Stmt → Stmt)
    (before : List Token) :
    (do return assemble (← ofOption condition) (← ofOption branch) : Parse Stmt).Leaves before [] fun _ after =>
      after = before := by
  refine leaves_of_still fun p => ?_
  cases condition <;> cases branch <;> rfl

theorem leaves_block {statement : Parse Stmt} {hadv : statement.Advances} {l t r : Token} {ts : List Token}
    (hl : l.kind = .leftBrace) (hr : r.kind = .rightBrace) (ht : t.kind ∈ statementKinds)
    (h : statement.LeavesBraces (t :: ts) new (r :: rest)) (hrest : AllBraces rest) :
    (block (statementsOver statement hadv)).LeavesBraces (l :: t :: ts) new rest := by
  refine leaves_require_bind hl _ ?_
  refine (leaves_statementsOver ht h (List.forall_mem_cons.2 ⟨hr, hrest⟩)).bind_quiet ?_
  rintro members _ ⟨closers, hclosers, rfl⟩
  cases closers with
  | nil =>
    refine leaves_require_bind hr _ ?_
    exact (leaves_of_still fun _ => rfl).imp fun _ _ h => ⟨[], allBraces_nil, h⟩
  | cons c closers =>
    rw [AllBraces, List.forall_mem_cons] at hclosers
    refine leaves_require_bind hclosers.1 _ ?_
    refine (leaves_of_still fun _ => rfl).imp fun _ _ h => ⟨closers ++ [r], ?_, ?_⟩
    · exact AllBraces.append hclosers.2 (List.forall_mem_singleton.2 hr)
    · rw [h, List.append_assoc]
      rfl

section Tests

variable {room : Nat} {statement : Parse Stmt} {word l b r : Token} {ts : List Token}

/-- The test of a conditional or a loop, a name in parentheses. -/
theorem succeeds_test_name (hl : l.kind = .leftParen) (hb : b.kind = .identifier) (hr : r.kind = .rightParen)
    (context : String) :
    (test (expressionIn room) context).attempt.Succeeds ((l :: b :: r :: ts).map Token.terminal) fun _ after =>
      after = ts.map Token.terminal := by
  simp only [List.map_cons, terminal_eq hl, terminal_eq hb, terminal_eq hr]
  have he := expression_of_identifier room b.lexeme
  refine (succeeds_test (complete_expressionIn room) he context _ _ _).attempt.imp ?_
  rintro _ _ ⟨_, -, -, hafter⟩
  exact hafter

theorem leaves_conditional (hword : word.kind = .ifWord) (hl : l.kind = .leftParen) (hb : b.kind = .identifier)
    (hr : r.kind = .rightParen) (h : statement.LeavesBraces ts new rest) (hrest : AllBraces rest) :
    (conditional (expressionIn room) statement).LeavesBraces (word :: l :: b :: r :: ts) new rest := by
  refine leaves_require_bind hword _ ?_
  refine (succeeds_test_name hl hb hr _).leaves_bind (List.suffix_append [l, b, r] ts) fun condition => ?_
  refine h.attempt.bind_quiet ?_
  rintro thenBranch _ ⟨closers, hclosers, rfl⟩
  refine (leaves_accept_else (hclosers.append hrest)).bind_quiet ?_
  rintro _ _ ⟨rfl, rfl⟩
  exact (leaves_assembled condition thenBranch .ifThen _).imp fun _ _ h => ⟨closers, hclosers, h⟩

theorem leaves_loop (hword : word.kind = .whileWord) (hl : l.kind = .leftParen) (hb : b.kind = .identifier)
    (hr : r.kind = .rightParen) (h : statement.LeavesBraces ts new rest) :
    (loop (expressionIn room) statement).LeavesBraces (word :: l :: b :: r :: ts) new rest := by
  refine leaves_require_bind hword _ ?_
  refine (succeeds_test_name hl hb hr _).leaves_bind (List.suffix_append [l, b, r] ts) fun condition => ?_
  refine h.attempt.bind_quiet ?_
  rintro body _ ⟨closers, hclosers, rfl⟩
  exact (leaves_assembled condition body .loop _).imp fun _ _ h => ⟨closers, hclosers, h⟩

end Tests

end Parse

namespace Nested

variable {openers ts : List Token}

theorem exists_cons (h : Nested openers ts) : ∃ t rest, ts = t :: rest ∧ t.kind ∈ Parse.statementKinds := by
  cases h with
  | assignment hx => exact ⟨_, _, rfl, by rw [hx]; decide⟩
  | block hl => exact ⟨_, _, rfl, by rw [hl]; decide⟩
  | test hword =>
    refine ⟨_, _, rfl, ?_⟩
    rcases hword with hword | hword <;> simp [hword, Parse.statementKinds]

/-- Only the braces that close blocks end what is skipped. -/
theorem exists_behindStatement (h : Nested openers ts) {rest : List Token} (hrest : AllBraces rest) :
    ∃ closers, AllBraces closers ∧ behindStatement (ts ++ rest) = closers ++ rest := by
  induction h generalizing rest with
  | @assignment x sign openers ts hx hsign hinside =>
    refine ⟨[], allBraces_nil, ?_⟩
    rw [behindStatement_append, hrest.behindStatement_eq, List.nil_append]
    simpa [Token.endsStatement, hx, hsign] using hinside.endsStatement_eq
  | @block l r openers ts hl hr _ ih =>
    obtain ⟨closers, hclosers, heq⟩ := ih (List.forall_mem_cons.2 ⟨hr, hrest⟩)
    refine ⟨closers ++ [r], hclosers.append (List.forall_mem_singleton.2 hr), ?_⟩
    rw [List.cons_append, List.append_assoc, behindStatement,
      List.dropWhile_cons_of_pos (by simp [Token.endsStatement, hl]), List.append_assoc]
    exact heq
  | @test word l b r openers ts hword hl hb hr _ ih =>
    obtain ⟨closers, hclosers, heq⟩ := ih hrest
    refine ⟨closers, hclosers, ?_⟩
    have htest : ∀ t ∈ [word, l, b, r], t.endsStatement = false := by
      rcases hword with hword | hword <;> simp [Token.endsStatement, hword, hl, hb, hr]
    exact (behindStatement_append htest (ts ++ rest)).trans heq

open Parse

/-- A statement for which there is no room at all. -/
private theorem leaves_tooDeep {t : Token} {openers ts rest : List Token} (h : Nested (t :: openers) (t :: ts))
    (hrest : AllBraces rest) : (tooDeep : Parse Stmt).LeavesBraces (t :: ts ++ rest) [tooDeepAt t] rest := by
  obtain ⟨closers, hclosers, heq⟩ := h.exists_behindStatement hrest
  refine (Parse.leaves_tooDeep t (ts ++ rest)).imp ?_
  rintro _ _ ⟨-, rfl⟩
  exact ⟨closers, hclosers, heq⟩

private theorem leaves_assignment {room : Nat} {x sign o : Token} {openers ts rest : List Token}
    (hx : x.kind = .identifier) (hsign : sign.kind = .assign) (hinside : Inside openers ts)
    (ho : openers[room]? = some o) (hrest : AllBraces rest) :
    (Parse.assignment (expressionIn room)).LeavesBraces (x :: sign :: ts ++ rest) [tooDeepAt o] rest := by
  refine leaves_expect_bind hx _ fun _ => ?_
  refine leaves_expect_bind hsign _ fun _ => ?_
  refine ((hinside.leaves_expressionIn ho rest).bind_none _).imp ?_
  rintro _ _ ⟨-, rfl⟩
  exact ⟨[], allBraces_nil, hrest.behindStatement_eq⟩

/-- The first opener for which there is no room is reported, and nothing else. -/
theorem leaves_statementIn (h : Nested openers ts) {room : Nat} {o : Token} (ho : openers[room]? = some o)
    {rest : List Token} (hrest : AllBraces rest) :
    (statementIn room).1.LeavesBraces (ts ++ rest) [tooDeepAt o] rest := by
  induction room generalizing openers ts rest with
  | zero =>
    cases h with
    | assignment hx hsign hinside =>
      refine leaves_current_bind fun u hu => ?_
      rw [hu, hx]
      exact leaves_assignment hx hsign hinside ho hrest
    | block hl hr hinner =>
      obtain rfl := Option.some.inj ho
      refine leaves_current_bind fun u hu => ?_
      rw [hu, hl]
      exact leaves_tooDeep (.block hl hr hinner) hrest
    | test hword hl hb hr hinner =>
      obtain rfl := Option.some.inj ho
      refine leaves_current_bind fun u hu => ?_
      have htooDeep := leaves_tooDeep (.test hword hl hb hr hinner) hrest
      rw [hu]
      rcases hword with hword | hword <;> rw [hword] <;> exact htooDeep
  | succ room ih =>
    cases h with
    | assignment hx hsign hinside =>
      refine leaves_current_bind fun u hu => ?_
      rw [hu, hx]
      exact leaves_assignment hx hsign hinside ho hrest
    | @block l r openers ts hl hr hinner =>
      have hstatement := ih hinner ho (List.forall_mem_cons.2 ⟨hr, hrest⟩)
      obtain ⟨t, more, rfl, ht⟩ := hinner.exists_cons
      rw [List.cons_append, List.append_assoc]
      refine leaves_current_bind fun u hu => ?_
      rw [hu, hl]
      exact leaves_block hl hr ht hstatement hrest
    | test hword hl hb hr hinner =>
      have hstatement := ih hinner ho hrest
      refine leaves_current_bind fun u hu => ?_
      rw [hu]
      rcases hword with hword | hword <;> rw [hword]
      · exact leaves_conditional hword hl hb hr hstatement hrest
      · exact leaves_loop hword hl hb hr hstatement

end Nested

/-! ### The limit -/

namespace Parser

theorem diagnostics_ofSource_of_faultless {source : String} (h : (ofSource source).lexicalErrors = 0) :
    (ofSource source).diagnostics = [] := by
  have hcount := (consistent_ofSource source).errorCount_eq
  have hle := (ofSource source).errorCount_le_lexicalErrors
  have hstart : (ofSource source).syntaxErrors = 0 := rfl
  rw [errorCount] at hcount
  exact List.length_eq_zero_iff.1 (by omega)

/-- On a text without lexical errors a nested statement is read if there are no more openers than allowed, and otherwise
the first that is too many is reported. -/
theorem statement_of_nested {source : String} {openers tokens : List Token}
    (htokens : (Pipeline.tokenize source).result = .ok tokens) (h : Nested openers tokens.dropLast) :
    let r := Parse.statement.run (ofSource source)
    (openers.length ≤ 64 → r.1.isSome = true ∧ r.2.diagnostics = [] ∧ r.2.current.kind = .endOfFile) ∧
      ∀ hmore : 64 < openers.length, r.2.diagnostics = [tooDeepAt openers[64]] := by
  intro r
  obtain ⟨hlexer, rfl⟩ := Pipeline.accepted_eq_ok_iff.1 htokens
  have hreg := regular_ofSource source
  have hlex : (ofSource source).lexicalErrors = 0 := (lexicalErrors_ofSource source).trans hlexer
  have hnone := diagnostics_ofSource_of_faultless hlex
  have hbefore := tokens_ofSource source
  refine ⟨fun hroom => ?_, fun hmore => ?_⟩
  · obtain ⟨s, hs⟩ := h.phrase hroom
    have hend : Parse.FollowsStatement s [] := Parse.followsStatement_of_headKind (.inr (.inr rfl)) s
    have hupcoming : (ofSource source).upcoming =
        (Lexer.ofSource source).tokenize.1.dropLast.map Token.terminal ++ [] := by
      rw [← hreg.map_terminal_tokens, hbefore, List.append_nil]
    obtain ⟨hc, s', hs', -, hafter⟩ := Parse.complete_statementIn maxNesting _ _ _ hs hend _ hreg hupcoming
    have hreaches := Parse.statement.reaches_run (ofSource source)
    refine ⟨by rw [show r.1 = some s' from hs']; rfl, ?_, upcoming_eq_nil.1 hafter⟩
    exact (hreaches.diagnostics_eq_of_faultless hlex hc).trans hnone
  · have ho : openers[maxNesting]? = some openers[64] := List.getElem?_eq_getElem hmore
    have hleaves : Parse.statement.LeavesBraces (_ ++ []) [tooDeepAt openers[64]] [] :=
      h.leaves_statementIn ho allBraces_nil
    rw [List.append_nil] at hleaves
    obtain ⟨hnew, -⟩ := hleaves _ hreg hlex hbefore
    rw [hnone] at hnew
    exact hnew

/-- Blocks, conditionals, loops, parentheses and conversions are counted together, and the 65th that is open at once is
reported, and nothing else; what is opened is closed again whatever comes of it, and one construct after the other is
read with all the room there is. -/
theorem nesting_is_limited :
    (∀ (source : String) (openers tokens : List Token), (Pipeline.tokenize source).result = .ok tokens →
      Nested openers tokens.dropLast →
      let r := Parse.statement.run (ofSource source)
      (openers.length ≤ 64 → r.1.isSome = true ∧ r.2.diagnostics = [] ∧ r.2.current.kind = .endOfFile) ∧
        ∀ hmore : 64 < openers.length,
          r.2.diagnostics = [⟨"Nesting deeper than 64 levels", some openers[64].position⟩]) ∧
    (∀ (c : Construct) (s : Descent.State), ∃ fragment s', Descent.Ends c.descend s fragment s' ∧
      s'.depth = s.depth ∧ s'.deepest ≤ max s.deepest 64) ∧
    ∀ (p : Parser) (constructs : List Construct), ∃ s,
      Descent.Ends (Descent.readAll constructs) (.fresh p) (p.readAll constructs).1 s ∧
      s.parser = (p.readAll constructs).2 ∧ s.depth = 0 ∧ s.deepest ≤ 64 := by
  refine ⟨fun source openers tokens htokens h => statement_of_nested htokens h, fun c s => ?_, fun p constructs => ?_⟩
  · obtain ⟨top, hends, htop⟩ := c.follows_descend s.depth s rfl
    exact ⟨_, _, hends, rfl, htop⟩
  · obtain ⟨top, hends, htop⟩ := Descent.gives_readAll constructs (s := .fresh p) rfl
    refine ⟨_, hends, rfl, rfl, ?_⟩
    have hfresh : (Descent.State.fresh p).deepest = 0 := rfl
    rw [hfresh, Nat.zero_max] at htop
    exact htop

/-- The position behind so many characters of the first line. -/
private def column (n : Nat) : Position := ⟨n, 1, .ofNat (n + 1)⟩

/-- A name in `m` parentheses, the openers and all tokens. -/
private def inParentheses (n : Nat) : (m : Nat) → List Token × List Token
  | 0 => ([], [⟨column n, .identifier, "y"⟩])
  | m + 1 =>
    let inner := inParentheses (n + 1) m
    let l : Token := ⟨column n, .leftParen, ""⟩
    (l :: inner.1, l :: (inner.2 ++ [⟨column (n + 2 * m + 2), .rightParen, ""⟩]))

/-- An assignment in `k` blocks, its value in `m` parentheses. -/
private def inBlocks (m n : Nat) : (k : Nat) → List Token × List Token
  | 0 =>
    let value := inParentheses (n + 2) m
    (value.1, ⟨column n, .identifier, "x"⟩ :: ⟨column (n + 1), .assign, "="⟩ :: value.2)
  | k + 1 =>
    let inner := inBlocks m (n + 1) k
    let l : Token := ⟨column n, .leftBrace, ""⟩
    (l :: inner.1, l :: (inner.2 ++ [⟨column (n + 2 * k + 2 * m + 4), .rightBrace, ""⟩]))

private theorem inside_inParentheses (n m : Nat) : Inside (inParentheses n m).1 (inParentheses n m).2 := by
  induction m generalizing n with
  | zero => exact .name rfl
  | succ m ih => exact .parenthesized rfl rfl (ih (n + 1))

private theorem nested_inBlocks (m n k : Nat) : Nested (inBlocks m n k).1 (inBlocks m n k).2 := by
  induction k generalizing n with
  | zero => exact .assignment rfl rfl (inside_inParentheses (n + 2) m)
  | succ k ih => exact .block rfl rfl (ih (n + 1))

/-- With 40 blocks the 25th parenthesis is too much. -/
theorem nesting_is_limited_in_blocks :
    let source := String.ofList (.replicate 40 '{' ++ ['x', '='] ++ .replicate 25 '(' ++ ['y'] ++ .replicate 25 ')' ++
      .replicate 40 '}')
    (Parse.statement.run (ofSource source)).2.diagnostics = [⟨"Nesting deeper than 64 levels", some ⟨66, 1, 67⟩⟩] := by
  intro source
  have htokens : (Pipeline.tokenize source).result = .ok ((inBlocks 25 0 40).2 ++ [.endOfFile (column 133)]) :=
    Pipeline.accepted_eq_ok_iff.2 ⟨by decide +kernel, by decide +kernel⟩
  have hnested : Nested (inBlocks 25 0 40).1 ((inBlocks 25 0 40).2 ++ [Token.endOfFile (column 133)]).dropLast := by
    rw [List.dropLast_concat]
    exact nested_inBlocks 25 0 40
  exact (nesting_is_limited.1 source _ _ htokens hnested).2 (by decide)

end Parser

end Clite
