import Clite.Proofs.Parsing.Clean
import Clite.Proofs.Parsing.Literal

/-!
# Reading expressions

The procedures for expressions read what the grammar derives.  A clean run has consumed a phrase of the
nonterminal and returns its tree (`Sound`).  Conversely, before a phrase that its successor cannot go on with a
run is clean, and it consumes that phrase (`Complete`).  Each combinator of procedures carries both over from its
parts, and the room to nest is the number of levels on both sides.
-/

namespace Clite.Parse

open Clite.Parser Clite.Grammar

variable {α : Type}

/-- A clean run of `m` reads a phrase of `R`. -/
def Sound (m : Parse α) (R : Phrase α) : Prop :=
  ∀ before, m.Clean before fun a after => ∃ w, before = w ++ after ∧ R w a

/-- `m` reads every phrase of `R` in front of terminals that satisfy `follow`. -/
def Complete (m : Parse α) (R : Phrase α) (follow : List Terminal → Prop) : Prop :=
  ∀ w a rest, R w a → follow rest → m.Succeeds (w ++ rest) fun b after => b = a ∧ after = rest

/-- None of these operators comes next. -/
def StopsBefore (ops : List BinaryOp) (rest : List Terminal) : Prop := ∀ op ∈ ops, headKind rest ≠ .operator op

/-- No operator comes next. -/
def NoOperator (rest : List Terminal) : Prop := ∀ op, headKind rest ≠ .operator op

theorem Complete.imp {m : Parse α} {R : Phrase α} {follow follow' : List Terminal → Prop}
    (h : m.Complete R follow) (himp : ∀ rest, follow' rest → follow rest) : m.Complete R follow' :=
  fun w a rest hw hrest => h w a rest hw (himp rest hrest)

/-! ### Operators of one level -/

theorem operator?_eq_some {p : Parser} {level : Level} {op : BinaryOp} :
    p.operator? level = some op ↔ headKind p.upcoming = .operator op ∧ op.level = level := by
  rw [← kind_current, operator?, Option.filter_eq_some_iff, decide_eq_true_eq]
  cases p.current.kind <;> simp [TokenKind.binaryOp?]

theorem operator?_eq_none {p : Parser} {level : Level} {ops : List BinaryOp}
    (hops : ∀ op : BinaryOp, op.level = level → op ∈ ops) (h : StopsBefore ops p.upcoming) :
    p.operator? level = none := by
  rw [Option.eq_none_iff_forall_ne_some]
  intro op hop
  rw [operator?_eq_some] at hop
  exact h op (hops op hop.2) hop.1

theorem succeeds_operatorAt (level : Level) (before : List Terminal) :
    (operatorAt level).Succeeds before fun op? after =>
      after = before ∧ ∀ op, op? = some op ↔ headKind before = .operator op ∧ op.level = level := by
  rintro p - rfl
  exact ⟨rfl, p.operator? level, rfl, rfl, fun _ => operator?_eq_some⟩

section Levels

variable {level : Level} {ops : List BinaryOp} {operand : Parse Expr} {Operand : Phrase Expr}
  {follow : List Terminal → Prop}

theorem chainFrom_of_none {p : Parser} (h : p.operator? level = none) (left : Expr) :
    chainFrom level operand left p = (some left, p) := by
  rw [chainFrom]
  split
  · rfl
  · next h' => rw [h] at h'; cases h'

theorem chainFrom_of_some {p q : Parser} {op : BinaryOp} {right : Expr} (h : p.operator? level = some op)
    (hr : operand.run p.advance = (some right, q)) (left : Expr) :
    chainFrom level operand left p = chainFrom level operand (.binary op left right) q := by
  rw [chainFrom]
  split
  · next h' => rw [h] at h'; cases h'
  · next op' h' =>
    obtain rfl := Option.some.inj (h.symm.trans h')
    split
    · next hr' => rw [hr] at hr'; cases hr'
    · next hr' =>
      rw [hr] at hr'
      cases hr'
      rfl

/-- A clean round of a chain prolongs the phrase that `left` stands for. -/
private theorem sound_chainFrom (hops : ∀ op : BinaryOp, op.level = level ↔ op ∈ ops)
    (h : operand.Sound Operand) (left : Expr) (p : Parser) (hreg : p.Regular)
    (hc : (chainFrom level operand left p).2.syntaxErrors = p.syntaxErrors) :
    ∃ e w, (chainFrom level operand left p).1 = some e ∧
      p.upcoming = w ++ (chainFrom level operand left p).2.upcoming ∧
      ∀ u, Chain ops Operand u left → Chain ops Operand (u ++ w) e := by
  fun_induction chainFrom level operand left p with
  | case1 left p hop => exact ⟨left, [], rfl, rfl, fun u hu => by rwa [List.append_nil]⟩
  | case2 left p op hop q hr =>
    obtain ⟨right, q', hr', -⟩ := (h _).run_eq hreg.advance rfl (by rw [hr]; exact hc)
    rw [hr] at hr'
    cases hr'
  | case3 left p op hop right q hr ih =>
    have hreaches := operand.reaches_run p.advance
    rw [hr] at hreaches
    have hclean : q.syntaxErrors = p.syntaxErrors := hreaches.syntaxErrors_eq (reaches_chainFrom ..) hc
    obtain ⟨right', q', hr', hreg', -, v, hv, hphrase⟩ :=
      (h _).run_eq hreg.advance rfl (by rw [hr]; exact hclean)
    obtain ⟨rfl, rfl⟩ : right = right' ∧ q = q' := by simpa [hr] using hr'
    obtain ⟨e, w, he, hw, hchain⟩ := ih hreg' (hc.trans hclean.symm)
    rw [operator?_eq_some, ← kind_current] at hop
    refine ⟨e, (.operator op, p.current.lexeme) :: v ++ w, he, ?_, fun u hu => ?_⟩
    · rw [upcoming_eq_cons (by simp) hop.1, hv, hw]
      simp
    · have hjoined :=
        hchain (u ++ (.operator op, p.current.lexeme) :: v) (.joined hu ((hops op).1 hop.2) hphrase)
      rwa [List.append_assoc] at hjoined

theorem sound_chain (hops : ∀ op : BinaryOp, op.level = level ↔ op ∈ ops) (h : operand.Sound Operand) :
    (chain level operand).Sound (Chain ops Operand) := by
  intro before
  refine (h before).bind ?_
  rintro left _ ⟨u, rfl, hu⟩ p hreg rfl hc
  obtain ⟨e, w, he, hw, hchain⟩ := sound_chainFrom hops h left p hreg hc
  refine ⟨e, he, u ++ w, ?_, hchain u (.operand hu)⟩
  rw [List.append_assoc, ← hw]

/-- A chain comes to the end of a phrase with the tree of the phrase in its hands. -/
private theorem chain_run_of_phrase (hops : ∀ op : BinaryOp, op.level = level ↔ op ∈ ops)
    (h : operand.Complete Operand follow) (hfollow : ∀ op ∈ ops, ∀ s rest, follow ((.operator op, s) :: rest))
    {w rest : List Terminal} {e : Expr} (hphrase : Chain ops Operand w e) (hrest : follow rest) {p : Parser}
    (hreg : p.Regular) (hp : p.upcoming = w ++ rest) :
    ∃ q : Parser, q.Regular ∧ q.upcoming = rest ∧ q.syntaxErrors = p.syntaxErrors ∧
      (chain level operand).run p = chainFrom level operand e q := by
  induction hphrase generalizing rest with
  | operand hw =>
    obtain ⟨e', q, hr, hq, hc, rfl, hafter⟩ := (h _ _ _ hw hrest).run_eq hreg hp
    refine ⟨q, hq, hafter, hc, ?_⟩
    rw [chain, run_bind, hr]
  | @joined u v left right op s hu hop hv ih =>
    rw [List.append_assoc] at hp
    -- the left part comes to the operator, and one more round of the chain to the end
    obtain ⟨q, hreg, hq, hc, hrun⟩ := ih (hfollow op hop s _) hp
    have hnext : q.operator? level = some op := operator?_eq_some.2 ⟨by rw [hq]; rfl, (hops op).2 hop⟩
    obtain ⟨right', r, hr, hreg', hc', rfl, hafter⟩ :=
      (h _ _ _ hv hrest).run_eq hreg.advance (upcoming_advance hq)
    exact ⟨r, hreg', hafter, hc'.trans hc, hrun.trans (chainFrom_of_some hnext hr left)⟩

theorem complete_chain (hops : ∀ op : BinaryOp, op.level = level ↔ op ∈ ops)
    (h : operand.Complete Operand follow) (hfollow : ∀ op ∈ ops, ∀ s rest, follow ((.operator op, s) :: rest)) :
    (chain level operand).Complete (Chain ops Operand) fun rest => follow rest ∧ StopsBefore ops rest := by
  intro w e rest hphrase hrest p hreg hp
  obtain ⟨q, -, hq, hc, hrun⟩ := chain_run_of_phrase hops h hfollow hphrase hrest.1 hreg hp
  have hnone := operator?_eq_none (fun op => (hops op).1) (hq ▸ hrest.2)
  rw [hrun, chainFrom_of_none hnone]
  exact ⟨hc, e, rfl, rfl, hq⟩

theorem sound_single (hops : ∀ op : BinaryOp, op.level = level ↔ op ∈ ops) (h : operand.Sound Operand) :
    (single level operand).Sound (Single ops Operand) := by
  intro before
  refine (h before).bind ?_
  rintro left _ ⟨u, rfl, hu⟩
  refine (succeeds_operatorAt level _).clean.bind ?_
  rintro op? mid ⟨rfl, hop⟩
  cases op? with
  | none => exact (succeeds_pure ⟨u, rfl, .operand hu⟩).clean
  | some op =>
    obtain ⟨hnext, hlevel⟩ := (hop op).1 rfl
    obtain ⟨s, rest, rfl⟩ := exists_of_headKind (by simp) hnext
    refine succeeds_take.clean.bind ?_
    rintro - _ ⟨-, rfl⟩
    refine (h _).bind ?_
    rintro right after ⟨v, rfl, hv⟩
    exact (succeeds_pure ⟨u ++ (.operator op, s) :: v, by simp, .joined hu ((hops op).1 hlevel) hv⟩).clean

theorem complete_single (hops : ∀ op : BinaryOp, op.level = level ↔ op ∈ ops)
    (h : operand.Complete Operand follow) (hfollow : ∀ op ∈ ops, ∀ s rest, follow ((.operator op, s) :: rest)) :
    (single level operand).Complete (Single ops Operand) fun rest => follow rest ∧ StopsBefore ops rest := by
  rintro w e rest hphrase ⟨hrest, hstop⟩
  cases hphrase with
  | operand hw =>
    refine (h _ _ _ hw hrest).bind ?_
    rintro _ _ ⟨rfl, rfl⟩
    refine (succeeds_operatorAt level _).bind ?_
    rintro op? _ ⟨rfl, hop⟩
    cases op? with
    | none => exact succeeds_pure ⟨rfl, rfl⟩
    | some op =>
      obtain ⟨hnext, hlevel⟩ := (hop op).1 rfl
      exact absurd hnext (hstop op ((hops op).1 hlevel))
  | @joined u v left right op s hu hop hv =>
    rw [List.append_assoc]
    refine (h _ _ _ hu (hfollow op hop s _)).bind ?_
    rintro _ _ ⟨rfl, rfl⟩
    refine (succeeds_operatorAt level _).bind ?_
    rintro op? _ ⟨rfl, hop'⟩
    obtain rfl := (hop' op).2 ⟨rfl, (hops op).2 hop⟩
    refine succeeds_take.bind ?_
    rintro - _ ⟨-, rfl⟩
    refine (h _ _ _ hv hrest).bind ?_
    rintro _ _ ⟨rfl, rfl⟩
    exact succeeds_pure ⟨rfl, rfl⟩

end Levels

/-! ### Factors and the levels above them -/

section Primary

variable {primary : Parse Expr} {Primary : Phrase Expr}

theorem prefixOp?_eq_some {kind : TokenKind} {op : UnaryOp} (h : kind.prefixOp? = some op) :
    (kind = .bang ∧ op = .not) ∨ (kind = .operator .sub ∧ op = .negate) := by
  unfold TokenKind.prefixOp? at h
  split at h
  · exact .inl ⟨rfl, (Option.some.inj h).symm⟩
  · exact .inr ⟨rfl, (Option.some.inj h).symm⟩
  · cases h

theorem sound_factorOver (h : primary.Sound Primary) : (factorOver primary).Sound (Factor Primary) := by
  intro before
  refine succeeds_current.clean.bind ?_
  rintro t before ⟨ht, rfl⟩
  rw [ht]
  cases hop : (headKind before).prefixOp? with
  | none => exact (h before).imp fun e after ⟨w, hw, he⟩ => ⟨w, hw, .plain he⟩
  | some op =>
    rcases prefixOp?_eq_some hop with ⟨hk, rfl⟩ | ⟨hk, rfl⟩ <;>
      obtain ⟨s, rest, rfl⟩ := exists_of_headKind (by simp) hk <;>
      refine succeeds_take.clean.bind ?_ <;>
      rintro - _ ⟨-, rfl⟩ <;>
      refine (h _).bind ?_ <;>
      rintro e after ⟨w, rfl, he⟩
    · exact (succeeds_pure ⟨_, rfl, .not he⟩).clean
    · exact (succeeds_pure ⟨_, rfl, .negate he⟩).clean

/-- No primary expression begins with a prefix operator, so the choice is right. -/
theorem complete_factorOver {follow : List Terminal → Prop} (h : primary.Complete Primary follow)
    (hhead : ∀ w e rest, Primary w e → (headKind (w ++ rest)).prefixOp? = none) :
    (factorOver primary).Complete (Factor Primary) follow := by
  intro w e rest hphrase hrest
  refine succeeds_current.bind ?_
  rintro t before ⟨ht, rfl⟩
  rw [ht]
  cases hphrase with
  | plain hp =>
    rw [hhead _ _ rest hp]
    exact h _ _ _ hp hrest
  | not hp | negate hp =>
    refine succeeds_take.bind ?_
    rintro - _ ⟨-, rfl⟩
    refine (h _ _ _ hp hrest).bind ?_
    rintro _ _ ⟨rfl, rfl⟩
    exact succeeds_pure ⟨rfl, rfl⟩

private theorem level_eq_iff (op : BinaryOp) :
    (op.level = .term ↔ op ∈ [.mul, .div]) ∧ (op.level = .addition ↔ op ∈ [.add, .sub]) ∧
      (op.level = .relation ↔ op ∈ [.less, .lessEqual, .greater, .greaterEqual]) ∧
      (op.level = .equality ↔ op ∈ [.equal, .notEqual]) ∧ (op.level = .conjunction ↔ op ∈ [.and]) ∧
      (op.level = .disjunction ↔ op ∈ [.or]) := by
  cases op <;> decide

theorem sound_disjunctionOver (h : primary.Sound Primary) :
    (disjunctionOver primary).Sound (Disjunction Primary) := by
  have hterm := sound_chain (fun op => (level_eq_iff op).1) (sound_factorOver h)
  have haddition := sound_chain (fun op => (level_eq_iff op).2.1) hterm
  have hrelation := sound_single (fun op => (level_eq_iff op).2.2.1) haddition
  have hequality := sound_single (fun op => (level_eq_iff op).2.2.2.1) hrelation
  have hconjunction := sound_chain (fun op => (level_eq_iff op).2.2.2.2.1) hequality
  exact sound_chain (fun op => (level_eq_iff op).2.2.2.2.2) hconjunction

/-- An operator ends what binds more tightly, so operands of each level are read in front of it. -/
theorem complete_disjunctionOver (h : primary.Complete Primary fun _ => True)
    (hhead : ∀ w e rest, Primary w e → (headKind (w ++ rest)).prefixOp? = none) :
    (disjunctionOver primary).Complete (Disjunction Primary) NoOperator := by
  have hfactor := complete_factorOver h hhead
  have hterm := complete_chain (fun op => (level_eq_iff op).1) hfactor (by simp)
  have haddition := complete_chain (fun op => (level_eq_iff op).2.1) hterm (by simp [StopsBefore, headKind])
  have hrelation := complete_single (fun op => (level_eq_iff op).2.2.1) haddition
    (by simp [StopsBefore, headKind])
  have hequality := complete_single (fun op => (level_eq_iff op).2.2.2.1) hrelation
    (by simp [StopsBefore, headKind])
  have hconjunction := complete_chain (fun op => (level_eq_iff op).2.2.2.2.1) hequality
    (by simp [StopsBefore, headKind])
  have hdisjunction := complete_chain (fun op => (level_eq_iff op).2.2.2.2.2) hconjunction
    (by simp [StopsBefore, headKind])
  refine hdisjunction.imp fun rest hrest => ?_
  have hstops (ops : List BinaryOp) : StopsBefore ops rest := fun op _ => hrest op
  exact ⟨⟨⟨⟨⟨⟨trivial, hstops _⟩, hstops _⟩, hstops _⟩, hstops _⟩, hstops _⟩, hstops _⟩

end Primary

/-! ### Primary expressions -/

theorem clean_tooDeep (before : List Terminal) (post : α → List Terminal → Prop) :
    (tooDeep : Parse α).Clean before post := by
  refine clean_of_lt fun p _ => ?_
  have hle := (reaches_skipToBoundary (p.report (.nestingTooDeep maxNesting p.current.position))).syntaxErrors_le
  exact hle

/-- No literal stands for the end of the file. -/
theorem exists_literal_of_ofToken? {p : Parser} {v : Value} (h : Value.ofToken? p.current = some v) :
    ∃ t, p.upcoming = t :: p.advance.upcoming ∧ Literal t v := by
  have hliteral := Value.ofToken?_eq_some.1 h
  have hk : p.current.kind ≠ .endOfFile := by
    intro hk
    rw [Token.terminal, hk] at hliteral
    cases hliteral
  exact ⟨_, upcoming_eq_cons hk rfl, hliteral⟩

theorem clean_literal (before : List Terminal) :
    literal.Clean before fun v after => ∃ t, before = t :: after ∧ Literal t v := by
  rintro p - rfl hc
  unfold literal at hc ⊢
  dsimp only at hc ⊢
  split at hc
  · next v hv => exact ⟨v, rfl, exists_literal_of_ofToken? hv⟩
  · simp at hc

theorem succeeds_literal {t : Terminal} {v : Value} (h : Literal t v) (rest : List Terminal) :
    literal.Succeeds (t :: rest) fun v' after => v' = v ∧ after = rest := by
  intro p _ hp
  have hv : Value.ofToken? p.current = some v := Value.ofToken?_eq_some.2 (terminal_current hp ▸ h)
  unfold literal
  dsimp only
  rw [hv]
  exact ⟨rfl, v, rfl, rfl, upcoming_advance hp⟩

theorem clean_typeName (before : List Terminal) :
    typeName.Clean before fun type after => ∃ s, before = (.typeName type, s) :: after := by
  refine succeeds_current.clean.bind ?_
  rintro t before ⟨ht, rfl⟩
  rw [ht]
  split
  · next type htype =>
    have hk : headKind before = .typeName type := by
      generalize headKind before = k at htype
      cases k <;> cases htype
      rfl
    obtain ⟨s, rest, rfl⟩ := exists_of_headKind (by simp) hk
    refine succeeds_take.clean.bind ?_
    rintro - _ ⟨-, rfl⟩
    exact (succeeds_pure ⟨s, rfl⟩).clean
  · exact clean_fail _ _

theorem succeeds_typeName (type : Ty) (s : String) (rest : List Terminal) :
    typeName.Succeeds ((.typeName type, s) :: rest) fun type' after => type' = type ∧ after = rest := by
  refine succeeds_current.bind ?_
  rintro t _ ⟨ht, rfl⟩
  rw [ht]
  refine succeeds_take.bind ?_
  rintro - _ ⟨-, rfl⟩
  exact succeeds_pure ⟨rfl, rfl⟩

section Inner

variable {inner : Parse Expr} {Inner : Phrase Expr}

theorem sound_parenthesized (h : inner.Sound Inner) (s₁ : String) (rest : List Terminal) :
    (parenthesized inner).Clean ((.leftParen, s₁) :: rest) fun e after =>
      ∃ w, (.leftParen, s₁) :: rest = w ++ after ∧ PrimaryOver Inner w e := by
  refine succeeds_take.clean.bind ?_
  rintro - _ ⟨-, rfl⟩
  refine (h _).bind ?_
  rintro e _ ⟨w, rfl, hw⟩
  refine (clean_require (by decide)).bind ?_
  rintro - after ⟨s₂, rfl⟩
  exact (succeeds_pure ⟨_, by simp, .parenthesized s₁ s₂ hw⟩).clean

theorem sound_conversion (h : inner.Sound Inner) : (conversion inner).Sound (PrimaryOver Inner) := by
  intro before
  refine (clean_typeName _).bind ?_
  rintro type _ ⟨s₁, rfl⟩
  refine (clean_require (by decide)).bind ?_
  rintro - _ ⟨s₂, rfl⟩
  refine (h _).bind ?_
  rintro e _ ⟨w, rfl, hw⟩
  refine (clean_require (by decide)).bind ?_
  rintro - after ⟨s₃, rfl⟩
  exact (succeeds_pure ⟨_, by simp, .conversion s₁ s₂ s₃ hw⟩).clean

theorem succeeds_parenthesized (h : inner.Complete Inner NoOperator) {w : List Terminal} {e : Expr}
    (hw : Inner w e) (s₁ s₂ : String) (rest : List Terminal) :
    (parenthesized inner).Succeeds ((.leftParen, s₁) :: (w ++ (.rightParen, s₂) :: rest)) fun b after =>
      b = e ∧ after = rest := by
  refine succeeds_take.bind ?_
  rintro - _ ⟨-, rfl⟩
  refine (h _ _ _ hw (by simp [NoOperator, headKind])).bind ?_
  rintro _ _ ⟨rfl, rfl⟩
  refine succeeds_require.bind ?_
  rintro - _ rfl
  exact succeeds_pure ⟨rfl, rfl⟩

theorem succeeds_conversion (h : inner.Complete Inner NoOperator) {w : List Terminal} {e : Expr}
    (hw : Inner w e) (type : Ty) (s₁ s₂ s₃ : String) (rest : List Terminal) :
    (conversion inner).Succeeds ((.typeName type, s₁) :: (.leftParen, s₂) :: (w ++ (.rightParen, s₃) :: rest))
      fun b after => b = .unary (.convert type) e ∧ after = rest := by
  refine (succeeds_typeName type s₁ _).bind ?_
  rintro _ _ ⟨rfl, rfl⟩
  refine succeeds_require.bind ?_
  rintro - _ rfl
  refine (h _ _ _ hw (by simp [NoOperator, headKind])).bind ?_
  rintro _ _ ⟨rfl, rfl⟩
  refine succeeds_require.bind ?_
  rintro - _ rfl
  exact succeeds_pure ⟨rfl, rfl⟩

end Inner

section PrimaryOver

variable {parenthesized conversion : Parse Expr} {Inner : Phrase Expr}

theorem sound_primaryOver
    (hp : ∀ s₁ rest, parenthesized.Clean ((.leftParen, s₁) :: rest) fun e after =>
      ∃ w, (.leftParen, s₁) :: rest = w ++ after ∧ PrimaryOver Inner w e)
    (hc : conversion.Sound (PrimaryOver Inner)) :
    (primaryOver parenthesized conversion).Sound (PrimaryOver Inner) := by
  have hliteral (before : List Terminal) : (do return Expr.literal (← literal)).Clean before fun e after =>
      ∃ w, before = w ++ after ∧ PrimaryOver Inner w e := by
    refine (clean_literal before).bind ?_
    rintro v after ⟨t, rfl, ht⟩
    exact (succeeds_pure ⟨[t], rfl, .literal ht⟩).clean
  intro before
  refine succeeds_current.clean.bind ?_
  rintro t before ⟨ht, rfl⟩
  rw [ht]
  split
  · next hk =>
    obtain ⟨s₁, rest, rfl⟩ := exists_of_headKind (by simp) hk
    refine succeeds_take.clean.bind ?_
    rintro token _ ⟨htoken, rfl⟩
    have hlexeme : token.lexeme = s₁ := congrArg Prod.snd htoken
    exact (succeeds_pure ⟨[(.identifier, s₁)], rfl, by rw [hlexeme]; exact .identifier⟩).clean
  · exact hliteral before
  · exact hliteral before
  · exact hliteral before
  · exact hliteral before
  · next hk =>
    obtain ⟨s₁, rest, rfl⟩ := exists_of_headKind (by simp) hk
    exact hp s₁ rest
  · exact hc before
  · exact clean_fail _ _

theorem complete_primaryOver
    (hp : ∀ w e s₁ s₂ rest, Inner w e →
      parenthesized.Succeeds ((.leftParen, s₁) :: (w ++ (.rightParen, s₂) :: rest)) fun b after =>
        b = e ∧ after = rest)
    (hc : ∀ w e type s₁ s₂ s₃ rest, Inner w e →
      conversion.Succeeds ((.typeName type, s₁) :: (.leftParen, s₂) :: (w ++ (.rightParen, s₃) :: rest))
        fun b after => b = .unary (.convert type) e ∧ after = rest) :
    (primaryOver parenthesized conversion).Complete (PrimaryOver Inner) fun _ => True := by
  rintro w e rest hphrase -
  refine succeeds_current.bind ?_
  rintro t before ⟨ht, rfl⟩
  rw [ht]
  cases hphrase with
  | identifier =>
    refine succeeds_take.bind ?_
    rintro token _ ⟨htoken, rfl⟩
    exact succeeds_pure ⟨congrArg (Expr.var ·.2) htoken, rfl⟩
  | @literal t v hl =>
    have hread : (do return Expr.literal (← literal)).Succeeds (t :: rest) fun b after =>
        b = Expr.literal v ∧ after = rest :=
      (succeeds_literal hl rest).bind fun _ _ ⟨hv, hrest⟩ => succeeds_pure ⟨by rw [hv], hrest⟩
    -- the kind of the literal selects the branch, which is the same for all kinds
    cases hl <;> exact hread
  | parenthesized _ _ hw =>
    rw [List.cons_append, List.append_assoc]
    exact hp _ _ _ _ rest hw
  | conversion _ _ _ hw =>
    rw [List.cons_append, List.cons_append, List.append_assoc]
    exact hc _ _ _ _ _ _ rest hw

private theorem prefixOp?_headKind {w : List Terminal} {e : Expr} (h : PrimaryOver Inner w e)
    (rest : List Terminal) : (headKind (w ++ rest)).prefixOp? = none := by
  cases h with
  | literal hl => cases hl <;> rfl
  | _ => rfl

end PrimaryOver

/-! ### Room to nest -/

theorem prefixOp?_headKind_primary (room : Nat) (w : List Terminal) (e : Expr) (rest : List Terminal)
    (h : Primary room w e) : (headKind (w ++ rest)).prefixOp? = none := by
  cases room <;> exact prefixOp?_headKind h rest

theorem sound_primaryIn (room : Nat) : (primaryIn room).Sound (Primary room) := by
  induction room with
  | zero => exact sound_primaryOver (fun _ _ => clean_tooDeep _ _) (fun _ => clean_tooDeep _ _)
  | succ room ih =>
    have hinner := sound_disjunctionOver ih
    exact sound_primaryOver (sound_parenthesized hinner) (sound_conversion hinner)

theorem complete_primaryIn (room : Nat) : (primaryIn room).Complete (Primary room) fun _ => True := by
  induction room with
  | zero =>
    -- no phrase opens a construct here
    exact complete_primaryOver (fun _ _ _ _ _ h => h.elim) (fun _ _ _ _ _ _ _ h => h.elim)
  | succ room ih =>
    have hinner := complete_disjunctionOver ih (prefixOp?_headKind_primary room)
    exact complete_primaryOver (fun _ _ s₁ s₂ rest hw => succeeds_parenthesized hinner hw s₁ s₂ rest)
      (fun _ _ type s₁ s₂ s₃ rest hw => succeeds_conversion hinner hw type s₁ s₂ s₃ rest)

/-- With room for so many constructs an expression is read as the grammar derives it. -/
theorem sound_expressionIn (room : Nat) : (expressionIn room).Sound (Expression room) :=
  sound_disjunctionOver (sound_primaryIn room)

theorem complete_expressionIn (room : Nat) : (expressionIn room).Complete (Expression room) NoOperator :=
  complete_disjunctionOver (complete_primaryIn room) (prefixOp?_headKind_primary room)

end Clite.Parse
