import Clite.Proofs.Parsing.Progress
import Clite.Proofs.Parsing.Trees

/-!
# Nothing is dropped in silence

The names and values in the tree of a phrase are those of its identifiers and literals, in their order (`Spells`): the
grammar adds none and leaves none out.  So is what a run reads that reports no syntax error, and a run that has nothing
to show for it has reported one (`Parser.nothing_dropped`).
-/

namespace Clite

/-- Is it an identifier or a literal? -/
def Terminal.bearsAtom (t : Terminal) : Bool :=
  match t.1 with
  | .identifier | .intLiteral | .floatLiteral | .charLiteral | .truth _ => true
  | _ => false

theorem Terminal.bearsAtom_of_atom? {t : Terminal} {a : Atom} (h : t.atom? = some a) : t.bearsAtom = true := by
  obtain ⟨kind, lexeme⟩ := t
  cases kind <;> first | rfl | simp [atom?, Token.atom?, Value.ofToken?] at h

/-- The identifiers and literals in `w` are, one by one, the atoms of the trees `ns`. -/
def Spells (w : List Terminal) (ns : List Node) : Prop :=
  (w.filter Terminal.bearsAtom).map Terminal.atom? = (ns.flatMap Node.atoms).map some

namespace Spells

variable {u w : List Terminal} {t : Terminal} {ns ms : List Node}

theorem nil : Spells [] [] := rfl

theorem append (h : Spells u ns) (h' : Spells w ms) : Spells (u ++ w) (ns ++ ms) := by
  rw [Spells, List.filter_append, List.map_append, h, h', List.flatMap_append, List.map_append]

/-- A sign or a word in front of a phrase has no atom. -/
theorem sign (ht : t.bearsAtom = false) (h : Spells w ns) : Spells (t :: w) ns := by
  rw [Spells, List.filter_cons_of_neg (by simp [ht])]
  exact h

theorem close (h : Spells w ns) (ht : t.bearsAtom = false) : Spells (w ++ [t]) ns := by
  have happend := h.append (sign ht nil)
  rwa [List.append_nil] at happend

theorem leaf {n : Node} {a : Atom} (hn : n.atom? = some a) (ht : t.atom? = some a) : Spells [t] [n] := by
  have hatoms : n.atoms = [a] := by
    rw [n.atoms_eq, hn, (Node.isLeaf_of_atom? hn).1]
    rfl
  rw [Spells, List.filter_cons_of_pos (Terminal.bearsAtom_of_atom? ht), List.flatMap_singleton, hatoms]
  exact congrArg (· :: []) ht

theorem node {n : Node} (h : Spells w n.parts) (hn : n.atom? = none) : Spells w [n] := by
  have hatoms : n.atoms = n.parts.flatMap Node.atoms := by
    rw [n.atoms_eq, hn]
    rfl
  rw [Spells, List.flatMap_singleton, hatoms]
  exact h

/-- Phrases one behind the other. -/
theorem items {α : Type} {nodes : α → List Node} {items : List (List Terminal × α)}
    (h : ∀ item ∈ items, Spells item.1 (nodes item.2)) :
    Spells (items.flatMap (·.1)) ((items.map (·.2)).flatMap nodes) := by
  induction items with
  | nil => exact nil
  | cons item items ih =>
    rw [List.forall_mem_cons] at h
    exact h.1.append (ih h.2)

end Spells

/-! ### Phrases spell their trees -/

namespace Grammar

/-- Every expression of `R` has the atoms of its phrase. -/
def SpellsExpr (R : Phrase Expr) : Prop := ∀ w e, R w e → Spells w [.expr e]

section Levels

variable {ops : List BinaryOp} {Operand Primary Inner : Phrase Expr}

private theorem spells_joined {u v : List Terminal} {left right : Expr} (hleft : Spells u [.expr left])
    (hright : Spells v [.expr right]) (op : BinaryOp) (s : String) :
    Spells (u ++ (.operator op, s) :: v) [.expr (.binary op left right)] := by
  have hparts : Spells (u ++ (.operator op, s) :: v) (Node.expr (.binary op left right)).parts :=
    hleft.append (hright.sign rfl)
  exact hparts.node rfl

theorem SpellsExpr.chain (h : SpellsExpr Operand) : SpellsExpr (Chain ops Operand) := by
  intro w e hw
  induction hw with
  | operand hw => exact h _ _ hw
  | joined _ _ hv ih => exact spells_joined ih (h _ _ hv) _ _

theorem SpellsExpr.single (h : SpellsExpr Operand) : SpellsExpr (Single ops Operand) := by
  intro w e hw
  cases hw with
  | operand hw => exact h _ _ hw
  | joined hu _ hv => exact spells_joined (h _ _ hu) (h _ _ hv) _ _

theorem SpellsExpr.factor (h : SpellsExpr Primary) : SpellsExpr (Factor Primary) := by
  intro w e hw
  cases hw with
  | plain hp => exact h _ _ hp
  | not hp | negate hp => exact ((h _ _ hp).sign rfl).node rfl

theorem SpellsExpr.disjunction (h : SpellsExpr Primary) : SpellsExpr (Disjunction Primary) :=
  h.factor.chain.chain.single.single.chain.chain

theorem SpellsExpr.primaryOver (h : SpellsExpr Inner) : SpellsExpr (PrimaryOver Inner) := by
  intro w e hw
  cases hw with
  | identifier => exact .leaf rfl rfl
  | literal ht => exact .leaf rfl (Terminal.atom?_of_literal ht)
  | parenthesized _ _ hw => exact ((h _ _ hw).close rfl).sign rfl
  | conversion _ _ _ hw => exact ((((h _ _ hw).close rfl).sign rfl).sign rfl).node rfl

end Levels

theorem spellsExpr_primary (room : Nat) : SpellsExpr (Primary room) := by
  induction room with
  | zero => exact SpellsExpr.primaryOver fun _ _ => False.elim
  | succ room ih => exact ih.disjunction.primaryOver

theorem spellsExpr_expression (room : Nat) : SpellsExpr (Expression room) := (spellsExpr_primary room).disjunction

theorem spells_statement {room : Nat} {w : List Terminal} {s : Stmt} (h : Statement room w s) : Spells w [.stmt s] := by
  induction h with
  | skip => exact (Spells.nil.sign rfl).node rfl
  | @assignment room w x s e he =>
    have htarget : Spells [(.identifier, x)] [.target x] := .leaf rfl rfl
    have hparts : Spells ((.identifier, x) :: (.assign, s) :: w) (Node.stmt (.assignment x e)).parts :=
      htarget.append ((spellsExpr_expression room _ _ he).sign rfl)
    exact hparts.node rfl
  | @block room members s₁ s₂ _ ih =>
    have hmembers : Spells (members.flatMap (·.1)) ((members.map (·.2)).map .stmt) := by
      rw [List.map_eq_flatMap]
      exact .items ih
    have hparts : Spells ((.leftBrace, s₁) :: (members.flatMap (·.1) ++ [(.rightBrace, s₂)]))
        (Node.stmt (.block (members.map (·.2)))).parts := (hmembers.close rfl).sign rfl
    exact hparts.node rfl
  | @ifThen room u v test thenBranch s₁ s₂ s₃ hu _ ih =>
    have htest := spellsExpr_expression room _ _ hu
    have hthen : Spells ((.rightParen, s₃) :: v) [.stmt thenBranch] := ih.sign rfl
    have hparts : Spells (u ++ (.rightParen, s₃) :: v) (Node.stmt (.ifThen test thenBranch)).parts := htest.append hthen
    exact ((hparts.node rfl).sign rfl).sign rfl
  | @ifElse room u v w test thenBranch elseBranch s₁ s₂ s₃ s₄ hu _ _ _ ihv ihw =>
    have htest := spellsExpr_expression room _ _ hu
    have helse : Spells ((.elseWord, s₄) :: w) [.stmt elseBranch] := ihw.sign rfl
    have hthen : Spells ((.rightParen, s₃) :: (v ++ (.elseWord, s₄) :: w)) [.stmt thenBranch, .stmt elseBranch] :=
      (ihv.append helse).sign rfl
    have hparts : Spells (u ++ (.rightParen, s₃) :: (v ++ (.elseWord, s₄) :: w))
        (Node.stmt (.ifElse test thenBranch elseBranch)).parts := htest.append hthen
    exact ((hparts.node rfl).sign rfl).sign rfl
  | @loop room u v test body s₁ s₂ s₃ hu _ ih =>
    have htest := spellsExpr_expression room _ _ hu
    have hbody : Spells ((.rightParen, s₃) :: v) [.stmt body] := ih.sign rfl
    have hparts : Spells (u ++ (.rightParen, s₃) :: v) (Node.stmt (.loop test body)).parts := htest.append hbody
    exact ((hparts.node rfl).sign rfl).sign rfl

theorem Repeated.spells {α : Type} {Item : Phrase α} {nodes : α → List Node}
    (h : ∀ w a, Item w a → Spells w (nodes a)) {w : List Terminal} {as : List α} (hw : Repeated Item w as) :
    Spells w (as.flatMap nodes) := by
  obtain ⟨items, rfl, rfl, hitems⟩ := hw
  exact Spells.items fun item hitem => h _ _ (hitems item hitem)

theorem spells_statements {room : Nat} {w : List Terminal} {ss : List Stmt} (h : Repeated (Statement room) w ss) :
    Spells w (ss.map .stmt) := by
  rw [List.map_eq_flatMap]
  exact h.spells fun _ _ hs => spells_statement hs

theorem spells_names {w : List Terminal} {xs : List String} (h : Names w xs) (type : Ty) :
    Spells w (xs.map fun x => .decl ⟨x, type⟩) := by
  induction h with
  | @one x => exact .leaf rfl rfl
  | @more w xs x s _ ih =>
    have hname : Spells [(.identifier, x)] [.decl ⟨x, type⟩] := .leaf rfl rfl
    exact hname.append (ih.sign rfl)

theorem spells_declarations {w : List Terminal} {dss : List (List Decl)} (h : Repeated Declaration w dss) :
    Spells w (dss.flatten.map .decl) := by
  have hdeclaration : ∀ w ds, Declaration w ds → Spells w (ds.map .decl) := by
    rintro _ _ ⟨s₁, s₂, hw⟩
    rw [List.map_map]
    exact ((spells_names hw _).close rfl).sign rfl
  rw [List.map_flatten, ← List.flatMap_def]
  exact h.spells hdeclaration

theorem spells_program {w : List Terminal} {p : Clite.Program} (h : Program w p) : Spells w [.program p] := by
  cases h with
  | @intro u v declarations body s₁ s₂ s₃ s₄ s₅ s₆ hu hv =>
    have hheader : Spells [(.typeName .int, s₁), (.mainWord, s₂), (.leftParen, s₃), (.rightParen, s₄), (.leftBrace, s₅)]
        [] := rfl
    have hparts : Spells (u ++ v) (Node.program ⟨declarations.flatten, body⟩).parts :=
      (spells_declarations hu).append (spells_statements hv)
    have hbody := hheader.append (hparts.node rfl)
    rw [← List.append_assoc] at hbody
    exact hbody.close rfl

end Grammar

/-! ### Runs without a syntax error -/

namespace Parse

open Clite.Parser Clite.Grammar

theorem Sound.imp {α : Type} {m : Parse α} {R R' : Phrase α} (h : m.Sound R) (himp : ∀ w a, R w a → R' w a) :
    m.Sound R' :=
  fun before => (h before).imp fun _ _ ⟨w, hw, ha⟩ => ⟨w, hw, himp _ _ ha⟩

/-- A clean run of `m` has the atoms of what it consumes in its tree. -/
def Spelling (m : Parse Expr) : Prop := m.Sound fun w e => Spells w [.expr e]

section Levels

variable {operand primary : Parse Expr}

/-- The operators of a level. -/
private theorem exists_ops (level : Level) : ∃ ops : List BinaryOp, ∀ op : BinaryOp, op.level = level ↔ op ∈ ops := by
  refine ⟨[.or, .and, .equal, .notEqual, .less, .lessEqual, .greater, .greaterEqual, .add, .sub, .mul, .div].filter
    (·.level = level), fun op => ?_⟩
  cases op <;> simp

theorem Spelling.chain (h : operand.Spelling) (level : Level) : (chain level operand).Spelling := by
  obtain ⟨ops, hops⟩ := exists_ops level
  exact (sound_chain hops h).imp (SpellsExpr.chain fun _ _ => id)

theorem Spelling.single (h : operand.Spelling) (level : Level) : (single level operand).Spelling := by
  obtain ⟨ops, hops⟩ := exists_ops level
  exact (sound_single hops h).imp (SpellsExpr.single fun _ _ => id)

theorem Spelling.factorOver (h : primary.Spelling) : (factorOver primary).Spelling :=
  (sound_factorOver h).imp (SpellsExpr.factor fun _ _ => id)

theorem spelling_primaryIn (room : Nat) : (primaryIn room).Spelling :=
  (sound_primaryIn room).imp (spellsExpr_primary room)

theorem spelling_expressionIn (room : Nat) : (expressionIn room).Spelling :=
  (sound_expressionIn room).imp (spellsExpr_expression room)

theorem spelling_atLevel (level : Level) : (atLevel level).Spelling := by
  have hfactor := (spelling_primaryIn maxNesting).factorOver
  cases level with
  | disjunction => exact (((((hfactor.chain _).chain _).single _).single _).chain _).chain _
  | conjunction => exact ((((hfactor.chain _).chain _).single _).single _).chain _
  | equality => exact (((hfactor.chain _).chain _).single _).single _
  | relation => exact ((hfactor.chain _).chain _).single _
  | addition => exact (hfactor.chain _).chain _
  | term => exact hfactor.chain _

end Levels

end Parse

/-- Is there nothing to show for what was asked for? -/
def Fragment.isMissing : Fragment → Bool
  | statement s? => s?.isNone
  | expression e? => e?.isNone
  | program _ | declarations _ | statements _ => false

namespace Parser

open Clite.Parse

private theorem reads_of_sound {α : Type} {m : Parse α} {R : Phrase α} (hm : m.Sound R) {p : Parser} (hreg : p.Regular)
    (hc : (m.run p).2.syntaxErrors = p.syntaxErrors) :
    ∃ a w, (m.run p).1 = some a ∧ p.upcoming = w ++ (m.run p).2.upcoming ∧ R w a := by
  obtain ⟨a, ha, w, hw, hR⟩ := hm _ p hreg rfl hc
  exact ⟨a, w, ha, hw, hR⟩

/-- If no syntax error is counted then there is a result, and it has all names and values of what was consumed. -/
theorem spells_read (c : Construct) {p : Parser} (hreg : p.Regular) (hc : (c.read p).2.syntaxErrors = p.syntaxErrors) :
    (c.read p).1.isMissing = false ∧
      ∃ w, p.upcoming = w ++ (c.read p).2.upcoming ∧ Spells w (c.read p).1.roots := by
  have hexpr {m : Parse Expr} (hm : m.Spelling) (hc : (m.run p).2.syntaxErrors = p.syntaxErrors) :
      (Fragment.expression (m.run p).1).isMissing = false ∧
        ∃ w, p.upcoming = w ++ (m.run p).2.upcoming ∧ Spells w (Fragment.expression (m.run p).1).roots := by
    obtain ⟨e, w, he, hw, hspells⟩ := reads_of_sound hm hreg hc
    rw [he]
    exact ⟨rfl, w, hw, hspells⟩
  cases c with
  | program =>
    obtain ⟨a, ha, hphrase, hnil⟩ := clean_program _ p hreg rfl hc
    have hread : (Construct.program.read p).1 = .program a := by
      rw [Construct.read, readProgram, ha]
      rfl
    have hafter : (Construct.program.read p).2.upcoming = [] := hnil
    rw [hread, hafter]
    exact ⟨rfl, p.upcoming, (List.append_nil _).symm, Grammar.spells_program hphrase⟩
  | declarations =>
    obtain ⟨ds, w, hds, hw, dss, rfl, hphrase⟩ := reads_of_sound sound_declarations hreg hc
    have hread : (Construct.declarations.read p).1 = .declarations dss.flatten := by
      rw [Construct.read, hds]
      rfl
    rw [hread]
    exact ⟨rfl, w, hw, Grammar.spells_declarations hphrase⟩
  | statements =>
    obtain ⟨ss, hss, ⟨w, hw, hphrase⟩, -⟩ := clean_statementsOver (sound_statementIn maxNesting) _ p hreg rfl hc
    have hread : (Construct.statements.read p).1 = .statements ss := by
      rw [Construct.read, statements, statementsIn, hss]
      rfl
    rw [hread]
    exact ⟨rfl, w, hw, Grammar.spells_statements hphrase⟩
  | statement =>
    obtain ⟨s, hs, ⟨w, hw, hphrase⟩, -⟩ := sound_statementIn maxNesting _ p hreg rfl hc
    have hread : (Construct.statement.read p).1 = .statement (some s) := congrArg Fragment.statement hs
    rw [hread]
    exact ⟨rfl, w, hw, Grammar.spells_statement hphrase⟩
  | expression => exact hexpr (spelling_expressionIn maxNesting) hc
  | level level => exact hexpr (spelling_atLevel level) hc
  | factor => exact hexpr (spelling_primaryIn maxNesting).factorOver hc
  | primary => exact hexpr (spelling_primaryIn maxNesting) hc

/-- Whatever is asked for, a parser on a text that has nothing to show for it has reported a syntax error; and if none
is reported then the names and values in what comes back are those of the identifiers and literals that were consumed,
one by one. -/
theorem nothing_dropped {source : String} {skipped : Nat} {p : Parser}
    (h : (ofLexer ((Lexer.ofSource source).nextMany skipped).2).Reaches p) (c : Construct) :
    ∃ new, p.Adds new (c.read p).2 ∧
      ((c.read p).1.isMissing = true → ∃ r ∈ new, r.origin = .syntactic) ∧
      ((∀ r ∈ new, r.origin ≠ .syntactic) →
        ∃ w, p.upcoming = w ++ (c.read p).2.upcoming ∧ Spells w (c.read p).1.roots) := by
  have hreg : p.Regular := h.regular (regular_ofLexer_nextMany source skipped)
  obtain ⟨new, hnew⟩ := (reaches_read c p).adds
  have hclean (hnone : ∀ r ∈ new, r.origin ≠ .syntactic) : (c.read p).2.syntaxErrors = p.syntaxErrors := by
    refine hnew.syntaxErrors_eq_iff.2 fun r hr => ?_
    have hne := hnone r hr
    cases ho : r.origin with
    | lexical => rfl
    | syntactic => exact absurd ho hne
  refine ⟨new, hnew, fun hmissing => ?_, fun hnone => (spells_read c hreg (hclean hnone)).2⟩
  by_contra hnone
  have hread := (spells_read c hreg (hclean fun r hr ho => hnone ⟨r, hr, ho⟩)).1
  rw [hmissing] at hread
  cases hread

/-- A loop whose test and target are there, but not what is to be assigned. -/
theorem nothing_dropped_but_reported :
    let p := ofSource "while (a < 2) b = ; c"
    (Construct.statement.read p).1.isMissing = true ∧
      ∃ new, p.Adds new (Construct.statement.read p).2 ∧ ∃ r ∈ new, r.origin = .syntactic := by
  intro p
  have hmissing : (Construct.statement.read p).1.isMissing = true := by decide +kernel
  have hreaches : (ofLexer ((Lexer.ofSource "while (a < 2) b = ; c").nextMany 0).2).Reaches p := .refl
  obtain ⟨new, hnew, hreported, -⟩ := nothing_dropped hreaches .statement
  exact ⟨hmissing, new, hnew, hreported hmissing⟩

end Parser

end Clite
