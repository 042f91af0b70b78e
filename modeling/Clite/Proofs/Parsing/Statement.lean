import Clite.Proofs.Parsing.Expression

/-!
# Reading statements

As for expressions, a clean run reads a phrase of the grammar and every phrase is read by a clean run, if what
follows cannot go on with it.  An `else` goes on with a statement that ends in a conditional without one: such a
statement is never left in front of an `else` (`ReadsStatement`), which is why an `else` belongs to the nearest
`if` that can still take one.
-/

namespace Clite.Parse

open Clite.Parser Clite.Grammar

/-- A phrase of `R` is read, and no `else` is left behind a statement that could still take it. -/
def ReadsStatement (R : Phrase Stmt) (before : List Terminal) (s : Stmt) (after : List Terminal) : Prop :=
  (∃ w, before = w ++ after ∧ R w s) ∧ (s.endsOpen = true → headKind after ≠ .elseWord)

/-- A statement in front of an `else` that was left to it is closed. -/
theorem endsOpen_of_elseWord {s : Stmt} {lexeme : String} {rest : List Terminal}
    (h : s.endsOpen = true → headKind ((.elseWord, lexeme) :: rest) ≠ .elseWord) : s.endsOpen = false := by
  cases hends : s.endsOpen with
  | false => rfl
  | true => exact absurd rfl (h hends)

/-- What may follow a statement: no operator, and no `else` that it could still take. -/
def FollowsStatement (s : Stmt) (rest : List Terminal) : Prop :=
  NoOperator rest ∧ (s.endsOpen = true → headKind rest ≠ .elseWord)

/-- A clean run of `m` reads a statement of `R`. -/
def SoundStatement (m : Parse Stmt) (R : Phrase Stmt) : Prop := ∀ before, m.Clean before (ReadsStatement R before)

/-- `m` reads every statement of `R` in front of what may follow it. -/
def CompleteStatement (m : Parse Stmt) (R : Phrase Stmt) : Prop :=
  ∀ w s rest, R w s → FollowsStatement s rest → m.Succeeds (w ++ rest) fun b after => b = s ∧ after = rest

/-! ### Lists of statements -/

/-- The end of a list of statements comes next. -/
def AtListEnd (rest : List Terminal) : Prop := headKind rest = .rightBrace ∨ headKind rest = .endOfFile

theorem atListEnd_iff (p : Parser) : p.atListEnd = true ↔ AtListEnd p.upcoming := by
  simp [Parser.atListEnd, AtListEnd, kind_current]

/-- The kinds that a statement begins with. -/
def statementKinds : List TokenKind := [.semicolon, .identifier, .leftBrace, .ifWord, .whileWord]

theorem headKind_statement {room : Nat} {w : List Terminal} {s : Stmt} (h : Statement room w s)
    (rest : List Terminal) : headKind (w ++ rest) ∈ statementKinds := by
  cases h <;> simp [headKind, statementKinds]

/-- A statement, and the end of a list of statements, may follow every statement. -/
theorem followsStatement_of_headKind {rest : List Terminal} (h : headKind rest ∈ statementKinds ∨ AtListEnd rest)
    (s : Stmt) : FollowsStatement s rest := by
  have hk : headKind rest ∈ TokenKind.rightBrace :: TokenKind.endOfFile :: statementKinds := by
    rcases h with h | h | h <;> simp [h]
  have hne : ∀ k ∈ TokenKind.rightBrace :: TokenKind.endOfFile :: statementKinds,
      k.binaryOp? = none ∧ k ≠ .elseWord := by decide
  refine ⟨fun op hop => ?_, fun _ => (hne _ hk).2⟩
  have hnone := (hne _ hk).1
  rw [hop] at hnone
  cases hnone

section Statements

variable {statement : Parse Stmt} {hadv : statement.Advances} {room : Nat}

private theorem sound_statementsOnto (h : statement.SoundStatement (Statement room)) (found : List Stmt)
    (p : Parser) (hreg : p.Regular) (hc : (statementsOnto statement hadv found p).2.syntaxErrors = p.syntaxErrors) :
    ∃ w ss, (statementsOnto statement hadv found p).1 = found.reverse ++ ss ∧
      p.upcoming = w ++ (statementsOnto statement hadv found p).2.upcoming ∧ Repeated (Statement room) w ss ∧
      AtListEnd (statementsOnto statement hadv found p).2.upcoming := by
  fun_induction statementsOnto statement hadv found p with
  | case1 found p hend =>
    exact ⟨[], [], by simp, rfl, .nil, (atListEnd_iff p).1 hend⟩
  | case2 found p hend r ih =>
    have hreaches := statement.reaches_run p
    have hclean : r.2.syntaxErrors = p.syntaxErrors := hreaches.syntaxErrors_eq (reaches_statementsOnto ..) hc
    obtain ⟨s, hs, ⟨u, hu, hphrase⟩, -⟩ := h _ p hreg rfl hclean
    obtain ⟨w, ss, hresult, hw, hss, hstop⟩ := ih (hreaches.regular hreg) (hc.trans hclean.symm)
    refine ⟨u ++ w, s :: ss, ?_, ?_, .cons hphrase hss, hstop⟩
    · rw [hresult, show r.1 = some s from hs]
      simp
    · rw [hu, show (statement.run p).2.upcoming = _ from hw, List.append_assoc]

/-- A list of statements is read up to its end. -/
theorem clean_statementsOver (h : statement.SoundStatement (Statement room)) (before : List Terminal) :
    (statementsOver statement hadv).Clean before fun ss after =>
      (∃ w, before = w ++ after ∧ Repeated (Statement room) w ss) ∧ AtListEnd after := by
  rintro p hreg rfl hc
  obtain ⟨w, ss, hresult, hw, hphrase, hend⟩ := sound_statementsOnto h [] p hreg hc
  exact ⟨ss, congrArg some hresult, ⟨w, hw, hphrase⟩, hend⟩

private theorem statementsOnto_passes (hadv : statement.Advances) (h : statement.CompleteStatement (Statement room))
    {items : List (List Terminal × Stmt)} (hitems : ∀ item ∈ items, Statement room item.1 item.2)
    {rest : List Terminal} (hrest : ∀ s, FollowsStatement s rest) (found : List Stmt) {p : Parser}
    (hreg : p.Regular) (hp : p.upcoming = items.flatMap (·.1) ++ rest) :
    ∃ q, p.Reaches q ∧ q.syntaxErrors = p.syntaxErrors ∧ q.upcoming = rest ∧
      statementsOnto statement hadv found p = statementsOnto statement hadv ((items.map (·.2)).reverse ++ found) q := by
  induction items generalizing found p with
  | nil => exact ⟨p, .refl, rfl, hp, rfl⟩
  | cons item items ih =>
    rw [List.forall_mem_cons] at hitems
    -- another statement comes next, or what follows them all
    have htail : ∀ s, FollowsStatement s (items.flatMap (·.1) ++ rest) := by
      cases items with
      | nil => exact hrest
      | cons next items =>
        rw [List.flatMap_cons, List.append_assoc]
        exact followsStatement_of_headKind (.inl (headKind_statement (hitems.2 next (by simp)) _))
    rw [List.flatMap_cons, List.append_assoc] at hp
    have hstart : ¬ p.atListEnd = true := by
      have hk := headKind_statement hitems.1 (items.flatMap (·.1) ++ rest)
      rw [atListEnd_iff, hp]
      rintro (hk' | hk') <;> rw [hk'] at hk <;> exact absurd hk (by decide)
    have hreaches := statement.reaches_run p
    obtain ⟨hc, s, hs, rfl, hafter⟩ := h _ _ _ hitems.1 (htail _) p hreg hp
    obtain ⟨q, hq, hcq, hrest', honto⟩ := ih hitems.2 (item.2 :: found) (hreaches.regular hreg) hafter
    refine ⟨q, hreaches.trans hq, hcq.trans hc, hrest', ?_⟩
    rw [statementsOnto, dif_neg hstart]
    dsimp only
    rw [hs, Option.toList_some, List.singleton_append, honto]
    simp

private theorem statementsOnto_append (hadv : statement.Advances) (found before : List Stmt) (p : Parser) :
    statementsOnto statement hadv (found ++ before) p =
      (before.reverse ++ (statementsOnto statement hadv found p).1, (statementsOnto statement hadv found p).2) := by
  fun_induction statementsOnto statement hadv found p with
  | case1 found p hend => rw [statementsOnto, dif_pos hend, List.reverse_append]
  | case2 found p hend r ih =>
    rw [statementsOnto, dif_neg hend]
    dsimp only
    rw [← List.append_assoc, ih]

/-- Statements in front of something that follows every statement are read one by one, and the rest of the list is read
behind them. -/
theorem statementsOver_passes (hadv : statement.Advances) (h : statement.CompleteStatement (Statement room))
    {items : List (List Terminal × Stmt)} (hitems : ∀ item ∈ items, Statement room item.1 item.2)
    {rest : List Terminal} (hrest : ∀ s, FollowsStatement s rest) {p : Parser} (hreg : p.Regular)
    (hp : p.upcoming = items.flatMap (·.1) ++ rest) :
    ∃ q, p.Reaches q ∧ q.syntaxErrors = p.syntaxErrors ∧ q.upcoming = rest ∧
      (statementsOver statement hadv).run p =
        (((statementsOver statement hadv).run q).1.map (items.map (·.2) ++ ·),
          ((statementsOver statement hadv).run q).2) := by
  obtain ⟨q, hq, hcq, hupcoming, honto⟩ := statementsOnto_passes hadv h hitems hrest [] hreg hp
  have hfound := statementsOnto_append hadv [] (items.map (·.2)).reverse q
  rw [List.reverse_reverse, List.nil_append] at hfound
  rw [List.append_nil, hfound] at honto
  refine ⟨q, hq, hcq, hupcoming, ?_⟩
  rw [statementsOver]
  dsimp only
  rw [honto]
  rfl

theorem succeeds_statementsOver (h : statement.CompleteStatement (Statement room)) {w : List Terminal}
    {ss : List Stmt} (hw : Repeated (Statement room) w ss) {rest : List Terminal} (hrest : AtListEnd rest) :
    (statementsOver statement hadv).Succeeds (w ++ rest) fun b after => b = ss ∧ after = rest := by
  obtain ⟨items, rfl, rfl, hitems⟩ := hw
  intro p hreg hp
  obtain ⟨q, -, hcq, hq, hrun⟩ :=
    statementsOver_passes hadv h hitems (followsStatement_of_headKind (.inr hrest)) hreg hp
  have hstop : (statementsOver statement hadv).run q = (some [], q) := by
    rw [statementsOver]
    dsimp only
    rw [statementsOnto, dif_pos ((atListEnd_iff q).2 (hq ▸ hrest))]
    rfl
  rw [hrun, hstop]
  exact ⟨hcq, _, rfl, List.append_nil _, hq⟩

end Statements

/-! ### Tests -/

section Compound

variable {expression : Parse Expr} {statement : Parse Stmt} {hadv : statement.Advances} {room : Nat}

theorem clean_test {E : Phrase Expr} (h : expression.Sound E) (context : String) (before : List Terminal) :
    (test expression context).Clean before fun e after =>
      ∃ u s₁ s₂, before = (.leftParen, s₁) :: (u ++ (.rightParen, s₂) :: after) ∧ E u e := by
  refine (clean_require (by decide)).bind ?_
  rintro - _ ⟨s₁, rfl⟩
  refine (h _).attempt.bind ?_
  rintro _ _ ⟨e, rfl, u, rfl, hu⟩
  refine (clean_require (by decide)).bind ?_
  rintro - after ⟨s₂, rfl⟩
  exact (succeeds_pure ⟨u, s₁, s₂, rfl, hu⟩).clean

theorem succeeds_test {E : Phrase Expr} (h : expression.Complete E NoOperator) {u : List Terminal} {e : Expr}
    (hu : E u e) (context s₁ s₂ : String) (rest : List Terminal) :
    (test expression context).Succeeds ((.leftParen, s₁) :: (u ++ (.rightParen, s₂) :: rest)) fun b after =>
      b = e ∧ after = rest := by
  refine succeeds_require.bind ?_
  rintro - _ rfl
  refine (h _ _ _ hu (by simp [NoOperator, headKind])).attempt.bind ?_
  rintro _ _ ⟨_, rfl, rfl, rfl⟩
  refine succeeds_require.bind ?_
  rintro - _ rfl
  exact succeeds_pure ⟨rfl, rfl⟩

/-! ### Each kind of statement -/

theorem sound_assignment (h : expression.Sound (Expression room)) :
    (assignment expression).SoundStatement (Statement room) := by
  intro before
  refine (clean_expect (by decide)).bind ?_
  rintro target _ rfl
  refine (clean_expect (by decide)).bind ?_
  rintro sign _ rfl
  refine (h _).bind ?_
  rintro e after ⟨w, rfl, hw⟩
  exact (succeeds_pure ⟨⟨_, rfl, .assignment hw⟩, nofun⟩).clean

theorem succeeds_assignment (h : expression.Complete (Expression room) NoOperator) {w : List Terminal} {e : Expr}
    (hw : Expression room w e) (x s : String) {rest : List Terminal} (hrest : NoOperator rest) :
    (assignment expression).Succeeds ((.identifier, x) :: (.assign, s) :: (w ++ rest)) fun b after =>
      b = .assignment x e ∧ after = rest := by
  refine succeeds_expect.bind ?_
  rintro target _ ⟨rfl, rfl⟩
  refine succeeds_expect.bind ?_
  rintro - _ ⟨-, rfl⟩
  refine (h _ _ _ hw hrest).bind ?_
  rintro _ _ ⟨rfl, rfl⟩
  exact succeeds_pure ⟨rfl, rfl⟩

theorem sound_block (h : statement.SoundStatement (Statement room)) :
    (block (statementsOver statement hadv)).SoundStatement (Statement (room + 1)) := by
  intro before
  refine (clean_require (by decide)).bind ?_
  rintro - _ ⟨s₁, rfl⟩
  refine (clean_statementsOver h _).bind ?_
  rintro _ _ ⟨⟨_, rfl, items, rfl, rfl, hitems⟩, -⟩
  refine (clean_require (by decide)).bind ?_
  rintro - after ⟨s₂, rfl⟩
  exact (succeeds_pure ⟨⟨_, by simp, .block s₁ s₂ hitems⟩, nofun⟩).clean

theorem succeeds_block (h : statement.CompleteStatement (Statement room)) {items : List (List Terminal × Stmt)}
    (hitems : ∀ item ∈ items, Statement room item.1 item.2) (s₁ s₂ : String) (rest : List Terminal) :
    (block (statementsOver statement hadv)).Succeeds
      ((.leftBrace, s₁) :: (items.flatMap (·.1) ++ (.rightBrace, s₂) :: rest)) fun b after =>
        b = .block (items.map (·.2)) ∧ after = rest := by
  refine succeeds_require.bind ?_
  rintro - _ rfl
  refine (succeeds_statementsOver h ⟨items, rfl, rfl, hitems⟩ (.inl rfl)).bind ?_
  rintro _ _ ⟨rfl, rfl⟩
  refine succeeds_require.bind ?_
  rintro - _ rfl
  exact succeeds_pure ⟨rfl, rfl⟩

theorem sound_conditional (he : expression.Sound (Expression room))
    (h : statement.SoundStatement (Statement room)) :
    (conditional expression statement).SoundStatement (Statement (room + 1)) := by
  intro before
  refine (clean_require (by decide)).bind ?_
  rintro - _ ⟨s₁, rfl⟩
  refine (clean_test he _ _).attempt.bind ?_
  rintro _ _ ⟨test, rfl, u, s₂, s₃, rfl, hu⟩
  refine (h _).attempt.bind ?_
  rintro _ mid ⟨thenBranch, rfl, ⟨v, rfl, hv⟩, hopen⟩
  refine (succeeds_accept (by decide)).clean.bind ?_
  rintro _ after (⟨rfl, s₄, rfl⟩ | ⟨rfl, helse, rfl⟩)
  · have hclosed := endsOpen_of_elseWord hopen
    refine (h _).bind ?_
    rintro elseBranch after ⟨⟨w, rfl, hw⟩, hend⟩
    exact (succeeds_pure ⟨⟨_, by simp, .ifElse s₁ s₂ s₃ s₄ hu hv hclosed hw⟩, hend⟩).clean
  · exact (succeeds_pure ⟨⟨_, by simp, .ifThen s₁ s₂ s₃ hu hv⟩, fun _ => helse⟩).clean

theorem succeeds_ifThen (he : expression.Complete (Expression room) NoOperator)
    (h : statement.CompleteStatement (Statement room)) {u v : List Terminal} {test : Expr} {thenBranch : Stmt}
    (hu : Expression room u test) (hv : Statement room v thenBranch) (s₁ s₂ s₃ : String) {rest : List Terminal}
    (hrest : FollowsStatement (.ifThen test thenBranch) rest) :
    (conditional expression statement).Succeeds
      ((.ifWord, s₁) :: (.leftParen, s₂) :: (u ++ (.rightParen, s₃) :: (v ++ rest))) fun b after =>
        b = .ifThen test thenBranch ∧ after = rest := by
  have helse : headKind rest ≠ .elseWord := hrest.2 rfl
  refine succeeds_require.bind ?_
  rintro - _ rfl
  refine (succeeds_test he hu _ _ _ _).attempt.bind ?_
  rintro _ _ ⟨_, rfl, rfl, rfl⟩
  refine (h _ _ _ hv ⟨hrest.1, fun _ => helse⟩).attempt.bind ?_
  rintro _ _ ⟨_, rfl, rfl, rfl⟩
  refine (succeeds_accept (by decide)).bind ?_
  rintro _ after (⟨rfl, s₄, rfl⟩ | ⟨rfl, -, rfl⟩)
  · exact absurd rfl helse
  · exact succeeds_pure ⟨rfl, rfl⟩

theorem succeeds_ifElse (he : expression.Complete (Expression room) NoOperator)
    (h : statement.CompleteStatement (Statement room)) {u v w : List Terminal} {test : Expr}
    {thenBranch elseBranch : Stmt} (hu : Expression room u test) (hv : Statement room v thenBranch)
    (hclosed : thenBranch.endsOpen = false) (hw : Statement room w elseBranch) (s₁ s₂ s₃ s₄ : String)
    {rest : List Terminal} (hrest : FollowsStatement (.ifElse test thenBranch elseBranch) rest) :
    (conditional expression statement).Succeeds
      ((.ifWord, s₁) :: (.leftParen, s₂) :: (u ++ (.rightParen, s₃) :: (v ++ (.elseWord, s₄) :: (w ++ rest))))
        fun b after => b = .ifElse test thenBranch elseBranch ∧ after = rest := by
  refine succeeds_require.bind ?_
  rintro - _ rfl
  refine (succeeds_test he hu _ _ _ _).attempt.bind ?_
  rintro _ _ ⟨_, rfl, rfl, rfl⟩
  refine (h _ _ _ hv ⟨by simp [NoOperator, headKind], by simp [hclosed]⟩).attempt.bind ?_
  rintro _ _ ⟨_, rfl, rfl, rfl⟩
  refine (succeeds_accept (by decide)).bind ?_
  rintro _ _ (⟨rfl, _, hcons⟩ | ⟨rfl, helse, -⟩)
  · -- the first branch is closed, so it has left the `else` alone
    obtain ⟨-, rfl⟩ := List.cons.inj hcons
    refine (h _ _ _ hw hrest).bind ?_
    rintro _ _ ⟨rfl, rfl⟩
    exact succeeds_pure ⟨rfl, rfl⟩
  · exact absurd rfl helse

theorem sound_loop (he : expression.Sound (Expression room)) (h : statement.SoundStatement (Statement room)) :
    (loop expression statement).SoundStatement (Statement (room + 1)) := by
  intro before
  refine (clean_require (by decide)).bind ?_
  rintro - _ ⟨s₁, rfl⟩
  refine (clean_test he _ _).attempt.bind ?_
  rintro _ _ ⟨test, rfl, u, s₂, s₃, rfl, hu⟩
  refine (h _).attempt.bind ?_
  rintro _ after ⟨body, rfl, ⟨v, rfl, hv⟩, hopen⟩
  exact (succeeds_pure ⟨⟨_, by simp, .loop s₁ s₂ s₃ hu hv⟩, hopen⟩).clean

theorem succeeds_loop (he : expression.Complete (Expression room) NoOperator)
    (h : statement.CompleteStatement (Statement room)) {u v : List Terminal} {test : Expr} {body : Stmt}
    (hu : Expression room u test) (hv : Statement room v body) (s₁ s₂ s₃ : String) {rest : List Terminal}
    (hrest : FollowsStatement (.loop test body) rest) :
    (loop expression statement).Succeeds
      ((.whileWord, s₁) :: (.leftParen, s₂) :: (u ++ (.rightParen, s₃) :: (v ++ rest))) fun b after =>
        b = .loop test body ∧ after = rest := by
  refine succeeds_require.bind ?_
  rintro - _ rfl
  refine (succeeds_test he hu _ _ _ _).attempt.bind ?_
  rintro _ _ ⟨_, rfl, rfl, rfl⟩
  refine (h _ _ _ hv hrest).attempt.bind ?_
  rintro _ _ ⟨_, rfl, rfl, rfl⟩
  exact succeeds_pure ⟨rfl, rfl⟩

end Compound

/-! ### Room to nest -/

private theorem clean_stray (before : List Terminal) (post : Stmt → List Terminal → Prop) :
    stray.Clean before post := by
  refine clean_of_lt fun p _ => ?_
  unfold stray
  dsimp only
  split <;> exact Nat.lt_succ_self _

/-- The kind of the next token tells which statement is to be read. -/
private theorem sound_statementOver {block conditional loop assignment : Parse Stmt} {room : Nat}
    (hb : block.SoundStatement (Statement room)) (hc : conditional.SoundStatement (Statement room))
    (hl : loop.SoundStatement (Statement room)) (ha : assignment.SoundStatement (Statement room)) :
    (statementOver block conditional loop assignment).SoundStatement (Statement room) := by
  intro before
  refine succeeds_current.clean.bind ?_
  rintro t before ⟨ht, rfl⟩
  rw [ht]
  split
  · next hk =>
    obtain ⟨s, rest, rfl⟩ := exists_of_headKind (by simp) hk
    refine succeeds_take.clean.bind ?_
    rintro - _ ⟨-, rfl⟩
    exact (succeeds_pure ⟨⟨[(.semicolon, s)], rfl, .skip⟩, nofun⟩).clean
  · exact hb before
  · exact hc before
  · exact hl before
  · exact ha before
  · exact clean_stray _ _

/-- With room for so many constructs a statement is read as the grammar derives it. -/
theorem sound_statementIn (room : Nat) : (statementIn room).1.SoundStatement (Statement room) := by
  induction room with
  | zero =>
    exact sound_statementOver (fun _ => clean_tooDeep _ _) (fun _ => clean_tooDeep _ _)
      (fun _ => clean_tooDeep _ _) (sound_assignment (sound_expressionIn 0))
  | succ room ih =>
    have he := sound_expressionIn room
    exact sound_statementOver (sound_block ih) (sound_conditional he ih) (sound_loop he ih)
      (sound_assignment (sound_expressionIn (room + 1)))

theorem complete_statementIn (room : Nat) : (statementIn room).1.CompleteStatement (Statement room) := by
  induction room with
  | zero =>
    intro w s rest hphrase hrest
    refine succeeds_current.bind ?_
    rintro t before ⟨ht, rfl⟩
    rw [ht]
    cases hphrase with
    | skip =>
      refine succeeds_take.bind ?_
      rintro - _ ⟨-, rfl⟩
      exact succeeds_pure ⟨rfl, rfl⟩
    | assignment hw => exact succeeds_assignment (complete_expressionIn 0) hw _ _ hrest.1
  | succ room ih =>
    intro w s rest hphrase hrest
    have he := complete_expressionIn room
    refine succeeds_current.bind ?_
    rintro t before ⟨ht, rfl⟩
    rw [ht]
    cases hphrase with
    | skip =>
      refine succeeds_take.bind ?_
      rintro - _ ⟨-, rfl⟩
      exact succeeds_pure ⟨rfl, rfl⟩
    | assignment hw => exact succeeds_assignment (complete_expressionIn (room + 1)) hw _ _ hrest.1
    | block s₁ s₂ hitems =>
      rw [List.cons_append, List.append_assoc]
      exact succeeds_block ih hitems s₁ s₂ rest
    | ifThen s₁ s₂ s₃ hu hv =>
      simp only [List.cons_append, List.append_assoc]
      exact succeeds_ifThen he ih hu hv s₁ s₂ s₃ hrest
    | ifElse s₁ s₂ s₃ s₄ hu hv hclosed hw =>
      simp only [List.cons_append, List.append_assoc]
      exact succeeds_ifElse he ih hu hv hclosed hw s₁ s₂ s₃ s₄ hrest
    | loop s₁ s₂ s₃ hu hv =>
      simp only [List.cons_append, List.append_assoc]
      exact succeeds_loop he ih hu hv s₁ s₂ s₃ hrest

end Clite.Parse
