import Clite.Parser.Session
import Clite.Proofs.Parsing.Returns
import Clite.Proofs.Parsing.Statement
import Clite.Proofs.Tree.WellFormed

/-!
# Trees behind errors

Behind an error a tree may lack parts of the text, but what is in it was drawn from the text (`Drawn`): its atoms
are atoms of the terminals that were consumed, each used once and in their order, it nests no deeper than there was
room, and each `else` in it stands with the nearest `if`.  This is so for every run of every procedure: what is
dropped and what is skipped only leaves atoms out (`Drawn.skip`), and a node adds to its parts at most itself
(`Drawn.node`).
-/

namespace Clite

open Clite.Parser Clite.Grammar

/-! ### Trees drawn from terminals -/

/-- The trees `ns`, one behind the other, come from the terminals between `before` and `after`, with room for so many
constructs. -/
structure Drawn (room : Nat) (before : List Terminal) (ns : List Node) (after : List Terminal) : Prop where
  atoms : (ns.flatMap Node.atoms ++ after.filterMap Terminal.atom?).Sublist (before.filterMap Terminal.atom?)
  elses : ∀ n ∈ ns, n.ElsesAreNearest
  nesting : ∀ n ∈ ns, n.NestsWithin room

namespace Drawn

variable {room : Nat} {before mid after : List Terminal} {ns ms : List Node}

/-- No tree comes from what is skipped. -/
theorem skip (h : after <:+ before) : Drawn room before [] after where
  atoms := (h.filterMap Terminal.atom?).sublist
  elses := nofun
  nesting := nofun

theorem append (h : Drawn room before ns mid) (h' : Drawn room mid ms after) : Drawn room before (ns ++ ms) after where
  atoms := by
    have hlater := h'.atoms.append_left (ns.flatMap Node.atoms)
    rw [List.flatMap_append, List.append_assoc]
    exact hlater.trans h.atoms
  elses := List.forall_mem_append.2 ⟨h.elses, h'.elses⟩
  nesting := List.forall_mem_append.2 ⟨h.nesting, h'.nesting⟩

theorem skip_before (h : mid <:+ before) (h' : Drawn room mid ns after) : Drawn room before ns after :=
  (skip h).append h'

theorem skip_after (h : Drawn room before ns mid) (h' : after <:+ mid) : Drawn room before ns after := by
  have happend := h.append (skip h')
  rwa [List.append_nil] at happend

theorem mono {room' : Nat} (h : Drawn room before ns after) (hle : room ≤ room') : Drawn room' before ns after where
  atoms := h.atoms
  elses := h.elses
  nesting := fun n hn => (h.nesting n hn).mono hle

/-- A node around parts that were drawn, if its atoms come from the terminals as well. -/
private theorem around {n : Node} (h : Drawn room mid n.parts after) (helse : n.ElseIsNearest)
    (hatoms : (n.atoms ++ after.filterMap Terminal.atom?).Sublist (before.filterMap Terminal.atom?)) :
    Drawn (room + if n.nests then 1 else 0) before [n] after where
  atoms := by rwa [List.flatMap_singleton]
  elses := List.forall_mem_singleton.2 (Node.elsesAreNearest_of_parts helse h.elses)
  nesting := List.forall_mem_singleton.2 (Node.nestsWithin_of_parts h.nesting)

private theorem around_of_parts {n : Node} (h : Drawn room before n.parts after) (hatom : n.atom? = none)
    (helse : n.ElseIsNearest) : Drawn (room + if n.nests then 1 else 0) before [n] after := by
  have hatoms : n.atoms = n.parts.flatMap Node.atoms := by
    rw [n.atoms_eq, hatom]
    rfl
  refine h.around helse ?_
  rw [hatoms]
  exact h.atoms

/-- A node that has no atom of its own is put together of the parts that were drawn. -/
theorem construct {n : Node} (h : Drawn room before n.parts after) (hatom : n.atom? = none)
    (helse : n.ElseIsNearest) : Drawn (room + 1) before [n] after := by
  have hle : (room + if n.nests then 1 else 0) ≤ room + 1 := by
    split <;> omega
  exact (h.around_of_parts hatom helse).mono hle

/-- A node that is no construct takes no room. -/
theorem node {n : Node} (h : Drawn room before n.parts after) (hatom : n.atom? = none) (hnests : n.nests = false)
    (helse : n.ElseIsNearest) : Drawn room before [n] after := by
  have hnode := h.around_of_parts hatom helse
  rwa [hnests] at hnode

/-- A node with an atom comes from the token of this atom. -/
theorem leaf {n : Node} {t : Terminal} {a : Atom} (hn : n.atom? = some a) (ht : t.atom? = some a)
    (after : List Terminal) : Drawn room (t :: after) [n] after := by
  obtain ⟨hparts, hnests, helse⟩ := Node.isLeaf_of_atom? hn
  have hatoms : n.atoms = [a] := by
    rw [n.atoms_eq, hn, hparts]
    rfl
  have hnone : Drawn room after n.parts after := by
    rw [hparts]
    exact skip (List.suffix_refl _)
  have hnode : Drawn (room + if n.nests then 1 else 0) (t :: after) [n] after := by
    refine hnone.around helse ?_
    rw [hatoms, List.filterMap_cons_some ht]
    exact List.Sublist.refl _
  rwa [hnests] at hnode

end Drawn

namespace Parse

variable {α : Type} {room : Nat}

/-- The result of a run was drawn, or there is none. -/
theorem drawn_run {m : Parse α} {nodes : α → List Node}
    (h : ∀ before, m.Returns before fun a after => Drawn room before (nodes a) after) {p : Parser} (hreg : p.Regular) :
    Drawn room p.upcoming ((m.run p).1.elim [] nodes) (m.run p).2.upcoming := by
  have hsuffix := (m.reaches_run p).upcoming_suffix hreg
  have hresult := h _ p hreg rfl
  cases hr : (m.run p).1 with
  | none => exact .skip hsuffix
  | some a => exact hresult a hr

/-! ### Expressions -/

/-- Every expression that `m` returns was drawn from what `m` has consumed. -/
def DrawsExpr (room : Nat) (m : Parse Expr) : Prop :=
  ∀ before, m.Returns before fun e after => Drawn room before [.expr e] after

section Levels

variable {operand : Parse Expr}

private theorem drawn_binary {before mid₁ mid₂ after : List Terminal} {left right : Expr} (op : BinaryOp)
    (hleft : Drawn room before [.expr left] mid₁) (hskip : mid₂ <:+ mid₁)
    (hright : Drawn room mid₂ [.expr right] after) : Drawn room before [.expr (.binary op left right)] after := by
  have hparts : Drawn room before (Node.expr (.binary op left right)).parts after :=
    hleft.append (hright.skip_before hskip)
  exact hparts.node rfl rfl trivial

/-- One more operand is drawn from behind the ones before. -/
private theorem drawn_chainFrom (h : DrawsExpr room operand) (level : Level) {before : List Terminal} {left : Expr}
    {p : Parser} (hreg : p.Regular) (hleft : Drawn room before [.expr left] p.upcoming) {e : Expr}
    (he : (chainFrom level operand left p).1 = some e) :
    Drawn room before [.expr e] (chainFrom level operand left p).2.upcoming := by
  fun_induction chainFrom level operand left p with
  | case1 left p hop =>
    obtain rfl := Option.some.inj he
    exact hleft
  | case2 left p op hop q hr => cases he
  | case3 left p op hop right q hr ih =>
    obtain ⟨hq, hright⟩ := (h _).of_run_eq hreg.advance rfl hr
    exact ih hq (drawn_binary op hleft hreg.upcoming_advance_suffix hright) he

theorem DrawsExpr.chain (h : DrawsExpr room operand) (level : Level) : DrawsExpr room (chain level operand) := by
  intro before
  refine (h before).bind ?_
  rintro left _ hleft p hreg rfl e he
  exact drawn_chainFrom h level hreg hleft he

theorem DrawsExpr.single (h : DrawsExpr room operand) (level : Level) : DrawsExpr room (single level operand) := by
  intro before
  refine (h before).bind ?_
  intro left mid hleft
  refine (succeeds_operatorAt level mid).returns.bind ?_
  rintro op? mid ⟨rfl, -⟩
  cases op? with
  | none => exact returns_pure hleft
  | some op =>
    refine (returns_suffix take _).bind ?_
    intro _ mid₂ hskip
    refine (h mid₂).bind ?_
    intro right after hright
    exact returns_pure (drawn_binary op hleft hskip hright)

end Levels

section Primary

variable {primary : Parse Expr}

theorem DrawsExpr.factorOver (h : DrawsExpr room primary) : DrawsExpr room (factorOver primary) := by
  intro before
  refine succeeds_current.returns.bind ?_
  rintro t before ⟨ht, rfl⟩
  split
  · next op hop =>
    -- the prefix operators are no conversions
    have hnests (e : Expr) : (Node.expr (.unary op e)).nests = false := by
      rcases prefixOp?_eq_some hop with ⟨-, rfl⟩ | ⟨-, rfl⟩ <;> rfl
    refine (returns_suffix take _).bind ?_
    intro _ mid hskip
    refine (h mid).bind ?_
    intro e after he
    have hparts : Drawn room before (Node.expr (.unary op e)).parts after := he.skip_before hskip
    exact returns_pure (hparts.node rfl (hnests e) trivial)
  · exact h before

theorem DrawsExpr.disjunctionOver (h : DrawsExpr room primary) : DrawsExpr room (disjunctionOver primary) :=
  (((((h.factorOver.chain _).chain _).single _).single _).chain _).chain _

end Primary

theorem returns_tooDeep (before : List Terminal) (post : α → List Terminal → Prop) :
    (tooDeep : Parse α).Returns before post := returns_of_none fun _ => rfl

section Inner

variable {inner : Parse Expr}

theorem DrawsExpr.parenthesized (h : DrawsExpr room inner) : DrawsExpr (room + 1) (parenthesized inner) := by
  intro before
  refine (returns_suffix take before).bind ?_
  intro _ mid hopen
  refine (h mid).bind ?_
  intro e mid₂ he
  refine (returns_suffix (require _ _) mid₂).bind ?_
  intro _ after hclose
  exact returns_pure (((he.skip_before hopen).skip_after hclose).mono (Nat.le_succ room))

theorem DrawsExpr.conversion (h : DrawsExpr room inner) : DrawsExpr (room + 1) (conversion inner) := by
  intro before
  refine (returns_suffix typeName before).bind ?_
  intro type mid htype
  refine (returns_suffix (require _ _) mid).bind ?_
  intro _ mid₂ hopen
  refine (h mid₂).bind ?_
  intro e mid₃ he
  refine (returns_suffix (require _ _) mid₃).bind ?_
  intro _ after hclose
  have hparts : Drawn room before (Node.expr (.unary (.convert type) e)).parts after :=
    (he.skip_before (hopen.trans htype)).skip_after hclose
  exact returns_pure (hparts.construct rfl trivial)

end Inner

theorem drawsExpr_primaryOver {parenthesized conversion : Parse Expr} (hp : DrawsExpr room parenthesized)
    (hc : DrawsExpr room conversion) : DrawsExpr room (primaryOver parenthesized conversion) := by
  have hliteral (before : List Terminal) : (do return Expr.literal (← literal)).Returns before fun e after =>
      Drawn room before [.expr e] after := by
    refine (returns_literal before).bind ?_
    rintro v after ⟨t, rfl, ht⟩
    exact returns_pure (.leaf rfl (Terminal.atom?_of_literal ht) after)
  intro before
  refine succeeds_current.returns.bind ?_
  rintro t before ⟨ht, rfl⟩
  rw [ht]
  split
  · next hk =>
    obtain ⟨x, rest, rfl⟩ := exists_of_headKind (by simp) hk
    refine succeeds_take.returns.bind ?_
    rintro token _ ⟨htoken, rfl⟩
    have hlexeme : token.lexeme = x := congrArg Prod.snd htoken
    rw [hlexeme]
    exact returns_pure (.leaf rfl rfl _)
  · exact hliteral before
  · exact hliteral before
  · exact hliteral before
  · exact hliteral before
  · exact hp before
  · exact hc before
  · exact returns_of_none fun _ => rfl

/-- With room for so many constructs no deeper expression is drawn. -/
theorem drawsExpr_primaryIn (room : Nat) : DrawsExpr room (primaryIn room) := by
  induction room with
  | zero => exact drawsExpr_primaryOver (fun _ => returns_tooDeep _ _) (fun _ => returns_tooDeep _ _)
  | succ room ih => exact drawsExpr_primaryOver ih.disjunctionOver.parenthesized ih.disjunctionOver.conversion

theorem drawsExpr_expressionIn (room : Nat) : DrawsExpr room (expressionIn room) :=
  (drawsExpr_primaryIn room).disjunctionOver

theorem drawsExpr_atLevel (level : Level) : DrawsExpr maxNesting (atLevel level) := by
  have hprimary := drawsExpr_primaryIn maxNesting
  cases level with
  | disjunction => exact hprimary.disjunctionOver
  | conjunction => exact ((((hprimary.factorOver.chain _).chain _).single _).single _).chain _
  | equality => exact (((hprimary.factorOver.chain _).chain _).single _).single _
  | relation => exact ((hprimary.factorOver.chain _).chain _).single _
  | addition => exact (hprimary.factorOver.chain _).chain _
  | term => exact hprimary.factorOver.chain _

/-! ### Statements -/

/-- Every statement that `m` returns was drawn from what `m` has consumed, and no `else` is left behind it that it
could still take. -/
def DrawsStmt (room : Nat) (m : Parse Stmt) : Prop :=
  ∀ before, m.Returns before fun s after =>
    Drawn room before [.stmt s] after ∧ (s.endsOpen = true → headKind after ≠ .elseWord)

section Statements

variable {statement : Parse Stmt} {hadv : statement.Advances} {expression : Parse Expr}

/-- A statement that is dropped leaves out what it has consumed. -/
private theorem drawn_statementsOnto (h : DrawsStmt room statement) {before : List Terminal} {found : List Stmt}
    {p : Parser} (hreg : p.Regular) (hfound : Drawn room before (found.reverse.map .stmt) p.upcoming) :
    Drawn room before ((statementsOnto statement hadv found p).1.map .stmt)
      (statementsOnto statement hadv found p).2.upcoming := by
  fun_induction statementsOnto statement hadv found p with
  | case1 found p hend => exact hfound
  | case2 found p hend r ih =>
    have hr : Drawn room p.upcoming (r.1.elim [] fun s => [.stmt s]) r.2.upcoming :=
      drawn_run (fun before => (h before).imp fun _ _ hs => hs.1) hreg
    have hnodes : (r.1.toList ++ found).reverse.map Node.stmt =
        found.reverse.map .stmt ++ r.1.elim [] fun s => [.stmt s] := by
      cases r.1 <;> simp
    refine ih ((statement.reaches_run p).regular hreg) ?_
    rw [hnodes]
    exact hfound.append hr

theorem drawn_statementsOver (h : DrawsStmt room statement) (before : List Terminal) :
    (statementsOver statement hadv).Returns before fun ss after => Drawn room before (ss.map .stmt) after := by
  rintro p hreg rfl ss hss
  obtain rfl := Option.some.inj hss
  exact drawn_statementsOnto h hreg (.skip (List.suffix_refl _))

theorem DrawsStmt.block (h : DrawsStmt room statement) :
    DrawsStmt (room + 1) (block (statementsOver statement hadv)) := by
  intro before
  refine (returns_suffix (require _ _) before).bind ?_
  intro _ mid hopen
  refine (drawn_statementsOver h mid).bind ?_
  intro members mid₂ hmembers
  refine (returns_suffix (require _ _) mid₂).bind ?_
  intro _ after hclose
  have hparts : Drawn room before (Node.stmt (.block members)).parts after :=
    (hmembers.skip_before hopen).skip_after hclose
  exact returns_pure ⟨hparts.construct rfl trivial, nofun⟩

theorem DrawsExpr.test (h : DrawsExpr room expression) (context : String) : DrawsExpr room (test expression context) := by
  intro before
  refine (returns_suffix (require _ _) before).bind ?_
  intro _ mid hopen
  refine (h mid).attempt.bind ?_
  rintro e? mid₂ ⟨-, he⟩
  refine (returns_suffix (require _ _) mid₂).bind ?_
  intro _ after hclose
  refine (returns_ofOption e? after).imp ?_
  rintro e _ ⟨rfl, rfl⟩
  exact ((he e rfl).skip_before hopen).skip_after hclose

/-- Where the test or the first branch is dropped the whole conditional is. -/
theorem DrawsStmt.conditional (he : DrawsExpr room expression) (h : DrawsStmt room statement) :
    DrawsStmt (room + 1) (conditional expression statement) := by
  intro before
  refine (returns_suffix (require _ _) before).bind ?_
  intro _ mid hif
  refine (he.test _ mid).attempt.bind ?_
  rintro test? mid₂ ⟨-, htest⟩
  refine (h mid₂).attempt.bind ?_
  rintro then? mid₃ ⟨-, hthen⟩
  refine (succeeds_accept (by decide)).returns.bind ?_
  rintro found mid₄ hfound
  cases found with
  | true =>
    obtain ⟨s, rfl⟩ : ∃ s, mid₃ = (.elseWord, s) :: mid₄ := by simpa using hfound
    refine (h mid₄).bind ?_
    rintro elseBranch after ⟨helse, hend⟩
    refine (returns_ofOption test? after).bind ?_
    rintro test _ ⟨rfl, rfl⟩
    refine (returns_ofOption then? _).bind ?_
    rintro thenBranch _ ⟨rfl, rfl⟩
    obtain ⟨hbranch, hopen⟩ := hthen thenBranch rfl
    have hclosed := endsOpen_of_elseWord hopen
    have hparts : Drawn room before (Node.stmt (.ifElse test thenBranch elseBranch)).parts _ :=
      ((htest test rfl).skip_before hif).append (hbranch.append (helse.skip_before (List.suffix_cons _ _)))
    exact returns_pure ⟨hparts.construct rfl hclosed, hend⟩
  | false =>
    obtain ⟨hnext, rfl⟩ : headKind mid₃ ≠ .elseWord ∧ mid₄ = mid₃ := by simpa using hfound
    refine (returns_ofOption test? _).bind ?_
    rintro test _ ⟨rfl, rfl⟩
    refine (returns_ofOption then? _).bind ?_
    rintro thenBranch _ ⟨rfl, rfl⟩
    have hparts : Drawn room before (Node.stmt (.ifThen test thenBranch)).parts _ :=
      ((htest test rfl).skip_before hif).append (hthen thenBranch rfl).1
    exact returns_pure ⟨hparts.construct rfl trivial, fun _ => hnext⟩

theorem DrawsStmt.loop (he : DrawsExpr room expression) (h : DrawsStmt room statement) :
    DrawsStmt (room + 1) (loop expression statement) := by
  intro before
  refine (returns_suffix (require _ _) before).bind ?_
  intro _ mid hwhile
  refine (he.test _ mid).attempt.bind ?_
  rintro test? mid₂ ⟨-, htest⟩
  refine (h mid₂).attempt.bind ?_
  rintro body? after ⟨-, hbody⟩
  refine (returns_ofOption test? after).bind ?_
  rintro test _ ⟨rfl, rfl⟩
  refine (returns_ofOption body? _).bind ?_
  rintro body _ ⟨rfl, rfl⟩
  obtain ⟨hbody, hopen⟩ := hbody body rfl
  have hparts : Drawn room before (Node.stmt (.loop test body)).parts _ :=
    ((htest test rfl).skip_before hwhile).append hbody
  exact returns_pure ⟨hparts.construct rfl trivial, hopen⟩

theorem DrawsExpr.assignment (h : DrawsExpr room expression) : DrawsStmt room (assignment expression) := by
  intro before
  refine (returns_expect (by decide) _ before).bind ?_
  rintro target mid rfl
  refine (returns_suffix (expect _ _) mid).bind ?_
  intro _ mid₂ hsign
  refine (h mid₂).bind ?_
  intro source after hsource
  have htarget : Drawn room ((.identifier, target.lexeme) :: mid) [.target target.lexeme] mid := .leaf rfl rfl mid
  have hparts : Drawn room ((.identifier, target.lexeme) :: mid)
      (Node.stmt (.assignment target.lexeme source)).parts after := htarget.append (hsource.skip_before hsign)
  exact returns_pure ⟨hparts.node rfl rfl trivial, nofun⟩

theorem drawsStmt_statementOver {block conditional loop assignment : Parse Stmt} (hb : DrawsStmt room block)
    (hc : DrawsStmt room conditional) (hl : DrawsStmt room loop) (ha : DrawsStmt room assignment) :
    DrawsStmt room (statementOver block conditional loop assignment) := by
  intro before
  refine succeeds_current.returns.bind ?_
  rintro t before ⟨-, rfl⟩
  split
  · refine (returns_suffix take before).bind ?_
    intro _ after hskip
    have hparts : Drawn room before (Node.stmt .skip).parts after := .skip hskip
    exact returns_pure ⟨hparts.node rfl rfl trivial, nofun⟩
  · exact hb before
  · exact hc before
  · exact hl before
  · exact ha before
  · exact returns_of_none fun _ => rfl

theorem drawsStmt_statementIn (room : Nat) : DrawsStmt room (statementIn room).1 := by
  induction room with
  | zero =>
    exact drawsStmt_statementOver (fun _ => returns_tooDeep _ _) (fun _ => returns_tooDeep _ _)
      (fun _ => returns_tooDeep _ _) (drawsExpr_expressionIn 0).assignment
  | succ room ih =>
    have he := drawsExpr_expressionIn room
    exact drawsStmt_statementOver ih.block (.conditional he ih) (.loop he ih)
      (drawsExpr_expressionIn (room + 1)).assignment

end Statements

/-! ### Declarations and programs -/

/-- One more name is drawn from behind the names before. -/
private theorem drawn_name {type : Ty} {before : List Terminal} {found : List String} {p q : Parser} {name : Token}
    (hreg : p.Regular) (hfound : Drawn room before (found.reverse.map fun x => .decl ⟨x, type⟩) p.upcoming)
    (h : (expect .identifier "declaration").run p = (some name, q)) :
    q.Regular ∧ Drawn room before ((name.lexeme :: found).reverse.map fun x => .decl ⟨x, type⟩) q.upcoming := by
  have hname (before : List Terminal) : (expect .identifier "declaration").Returns before fun t after =>
      before = (.identifier, t.lexeme) :: after := returns_expect (by decide) _ before
  obtain ⟨hq, hp⟩ := (hname _).of_run_eq hreg rfl h
  have hdecl : Drawn room ((.identifier, name.lexeme) :: q.upcoming) [.decl ⟨name.lexeme, type⟩] q.upcoming :=
    .leaf rfl rfl _
  rw [hp] at hfound
  rw [List.reverse_cons, List.map_append]
  exact ⟨hq, hfound.append hdecl⟩

private theorem drawn_namesOnto (type : Ty) {before : List Terminal} {found : List String} {p : Parser}
    (hreg : p.Regular) (hfound : Drawn room before (found.reverse.map fun x => .decl ⟨x, type⟩) p.upcoming) :
    Drawn room before ((namesOnto found p).1.map fun x => .decl ⟨x, type⟩) (namesOnto found p).2.upcoming := by
  fun_induction namesOnto found p with
  | case1 found p q h =>
    have hskip := ((expect .identifier "declaration").reaches_run p).upcoming_suffix hreg
    rw [h] at hskip
    exact hfound.skip_after hskip
  | case2 found p name q h hcomma ih =>
    obtain ⟨hq, hnames⟩ := drawn_name hreg hfound h
    exact ih hq.advance (hnames.skip_after hq.upcoming_advance_suffix)
  | case3 found p name q h hcomma => exact (drawn_name hreg hfound h).2

theorem drawn_declaration (before : List Terminal) :
    declaration.Returns before fun ds after => Drawn room before (ds.map .decl) after := by
  refine (returns_suffix typeName before).bind ?_
  intro type mid htype
  have hnames : names.Returns mid fun xs after => Drawn room mid (xs.map fun x => .decl ⟨x, type⟩) after := by
    rintro p hreg rfl xs hxs
    obtain rfl := Option.some.inj hxs
    exact drawn_namesOnto type hreg (.skip (List.suffix_refl _))
  refine hnames.bind ?_
  intro xs mid₂ hxs
  refine (returns_suffix (require _ _) mid₂).bind ?_
  intro _ after hclose
  have hnodes : (xs.map fun x => (⟨x, type⟩ : Decl)).map Node.decl = xs.map fun x => .decl ⟨x, type⟩ := List.map_map
  refine returns_pure ?_
  rw [hnodes]
  exact (hxs.skip_before htype).skip_after hclose

private theorem drawn_declarationsOnto {before : List Terminal} {found : List Decl} {p : Parser} (hreg : p.Regular)
    (hfound : Drawn room before (found.reverse.map .decl) p.upcoming) :
    Drawn room before ((declarationsOnto found p).1.map .decl) (declarationsOnto found p).2.upcoming := by
  fun_induction declarationsOnto found p with
  | case1 found p htype r ih =>
    have hr : Drawn room p.upcoming (r.1.elim [] (List.map .decl)) r.2.upcoming := drawn_run drawn_declaration hreg
    have hnodes : ((r.1.getD []).reverse ++ found).reverse.map Node.decl =
        found.reverse.map .decl ++ r.1.elim [] (List.map .decl) := by
      cases r.1 <;> simp
    refine ih ((declaration.reaches_run p).regular hreg) ?_
    rw [hnodes]
    exact hfound.append hr
  | case2 found p htype => exact hfound

theorem drawn_declarations (room : Nat) (before : List Terminal) :
    declarations.Returns before fun ds after => Drawn room before (ds.map .decl) after := by
  rintro p hreg rfl ds hds
  obtain rfl := Option.some.inj hds
  exact drawn_declarationsOnto hreg (.skip (List.suffix_refl _))

theorem drawn_program (before : List Terminal) :
    program.Returns before fun p after => Drawn maxNesting before [.program p] after := by
  refine (returns_suffix (require _ _) before).bind ?_
  intro _ w₁ h₁
  refine (returns_suffix (require _ _) w₁).bind ?_
  intro _ w₂ h₂
  refine (returns_suffix (require _ _) w₂).bind ?_
  intro _ w₃ h₃
  refine (returns_suffix (require _ _) w₃).bind ?_
  intro _ w₄ h₄
  refine (returns_suffix (require _ _) w₄).bind ?_
  intro _ w₅ h₅
  refine (drawn_declarations maxNesting w₅).bind ?_
  intro ds w₆ hds
  refine (drawn_statementsOver (drawsStmt_statementIn maxNesting) w₆).bind ?_
  intro body w₇ hbody
  refine (returns_suffix (require _ _) w₇).bind ?_
  intro _ w₈ h₈
  refine (returns_suffix (require _ _) w₈).bind ?_
  intro _ w₉ h₉
  refine (returns_suffix (noteProgram _ _) w₉).bind ?_
  intro _ after hnote
  have hheader : w₅ <:+ before := h₅.trans (h₄.trans (h₃.trans (h₂.trans h₁)))
  have hparts : Drawn maxNesting before (Node.program ⟨ds, body⟩).parts after :=
    ((hds.append hbody).skip_before hheader).skip_after (hnote.trans (h₉.trans h₈))
  exact returns_pure (hparts.node rfl rfl trivial)

end Parse

end Clite
