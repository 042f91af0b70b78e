import Clite.Proofs.Typing.Faults

/-!
# Well-typed programs

The validity rules of the language as relations: which types an expression has (`TypeMap.HasType`) and which
statements are well typed (`TypeMap.WellTyped`).  A check reports nothing just when every statement of the body is
well typed.  A checker keeps silent at a node whose parts have no type; it misses no error by this, for an expression
without a type has a fault in one of its nodes (`TypeMap.faultless_expr_iff`).
-/

namespace Clite

/-- A value of type `source` may stand where `target` is expected. -/
inductive Ty.Admits : (target source : Ty) → Prop
  | same (t : Ty) : Admits t t
  | int : Admits .float .int
  | char : Admits .int .char

theorem Ty.accepts_iff {target source : Ty} : target.accepts source = true ↔ target.Admits source := by
  constructor
  · intro h
    cases target <;> cases source <;> first | exact .same _ | exact .int | exact .char | cases h
  · intro h
    cases h with
    | same => cases target <;> rfl
    | int | char => rfl

theorem Ty.isNumeric_iff {t : Ty} : t.isNumeric = true ↔ t ∈ [int, float] := by
  cases t <;> decide

theorem BinaryOp.opClass_iff (op : BinaryOp) :
    (op.opClass = .arithmetic ↔ op ∈ [add, sub, mul, div]) ∧
      (op.opClass = .relational ∨ op.opClass = .equality ↔
        op ∈ [less, lessEqual, greater, greaterEqual, equal, notEqual]) ∧
      (op.opClass = .boolean ↔ op ∈ [and, or]) := by
  cases op <;> decide

namespace TypeMap

/-! ### The rules -/

/-- The expression is well typed, and this is its type. -/
inductive HasType (m : TypeMap) : Expr → Ty → Prop
  | var {name : String} {t : Ty} : m.find? name = some t → HasType m (.var name) t
  | literal (v : Value) : HasType m (.literal v) v.type
  | arithmetic {op : BinaryOp} {left right : Expr} {l r : Ty} :
    op ∈ [.add, .sub, .mul, .div] → HasType m left l → HasType m right r → l ∈ [.int, .float] →
      r ∈ [.int, .float] → HasType m (.binary op left right) (if l = .float ∨ r = .float then .float else .int)
  | comparison {op : BinaryOp} {left right : Expr} {t : Ty} :
    op ∈ [.less, .lessEqual, .greater, .greaterEqual, .equal, .notEqual] → HasType m left t →
      HasType m right t → HasType m (.binary op left right) .bool
  | connective {op : BinaryOp} {left right : Expr} :
    op ∈ [.and, .or] → HasType m left .bool → HasType m right .bool → HasType m (.binary op left right) .bool
  | not {e : Expr} : HasType m e .bool → HasType m (.unary .not e) .bool
  | negate {e : Expr} {t : Ty} : HasType m e t → t ∈ [.int, .float] → HasType m (.unary .negate e) t
  | toFloat {e : Expr} : HasType m e .int → HasType m (.unary (.convert .float) e) .float
  | toChar {e : Expr} : HasType m e .int → HasType m (.unary (.convert .char) e) .char
  | toInt {e : Expr} {t : Ty} :
    HasType m e t → t ∈ [.float, .char] → HasType m (.unary (.convert .int) e) .int

inductive WellTyped (m : TypeMap) : Stmt → Prop
  | skip : WellTyped m .skip
  | block {members : List Stmt} : (∀ s ∈ members, WellTyped m s) → WellTyped m (.block members)
  | assignment {target : String} {source : Expr} {expected found : Ty} :
    m.find? target = some expected → m.HasType source found → expected.Admits found →
      WellTyped m (.assignment target source)
  | ifThen {test : Expr} {thenBranch : Stmt} :
    m.HasType test .bool → WellTyped m thenBranch → WellTyped m (.ifThen test thenBranch)
  | ifElse {test : Expr} {thenBranch elseBranch : Stmt} :
    m.HasType test .bool → WellTyped m thenBranch → WellTyped m elseBranch →
      WellTyped m (.ifElse test thenBranch elseBranch)
  | loop {test : Expr} {body : Stmt} : m.HasType test .bool → WellTyped m body → WellTyped m (.loop test body)

variable {m : TypeMap}

/-! ### Types of expressions -/

theorem hasType_binary_iff {op : BinaryOp} {left right : Expr} {t : Ty} :
    m.HasType (.binary op left right) t ↔
      ∃ l r, m.HasType left l ∧ m.HasType right r ∧ op.takes l r = true ∧ op.result l r = t := by
  obtain ⟨harithmetic, hcomparison, hboolean⟩ := op.opClass_iff
  constructor
  · intro h
    cases h with
    | arithmetic hop hl hr hnl hnr =>
      have hc := harithmetic.2 hop
      refine ⟨_, _, hl, hr, ?_, by rw [BinaryOp.result, hc]⟩
      simp only [BinaryOp.takes, hc, Ty.isNumeric_iff.2 hnl, Ty.isNumeric_iff.2 hnr, Bool.and_self]
    | comparison hop hl hr =>
      refine ⟨_, _, hl, hr, ?_⟩
      rcases hcomparison.2 hop with hc | hc <;> simp [BinaryOp.takes, BinaryOp.result, hc]
    | connective hop hl hr =>
      refine ⟨_, _, hl, hr, ?_⟩
      simp [BinaryOp.takes, BinaryOp.result, hboolean.2 hop]
  · rintro ⟨l, r, hl, hr, htakes, rfl⟩
    unfold BinaryOp.takes at htakes
    unfold BinaryOp.result
    cases hc : op.opClass with
    | arithmetic =>
      simp only [hc, Bool.and_eq_true, Ty.isNumeric_iff] at htakes
      exact .arithmetic (harithmetic.1 hc) hl hr htakes.1 htakes.2
    | relational | equality =>
      simp only [hc, decide_eq_true_eq] at htakes
      subst htakes
      exact .comparison (hcomparison.1 (by simp [hc])) hl hr
    | boolean =>
      simp only [hc, Bool.and_eq_true, decide_eq_true_eq] at htakes
      obtain ⟨rfl, rfl⟩ := htakes
      exact .connective (hboolean.1 hc) hl hr

theorem hasType_unary_iff {op : UnaryOp} {e : Expr} {t : Ty} :
    m.HasType (.unary op e) t ↔ ∃ u, m.HasType e u ∧ op.takes u = true ∧ op.result u = t := by
  constructor
  · intro h
    cases h with
    | not he | toFloat he | toChar he => exact ⟨_, he, rfl, rfl⟩
    | negate he ht => exact ⟨_, he, Ty.isNumeric_iff.2 ht, rfl⟩
    | toInt he ht => exact ⟨_, he, by simpa [UnaryOp.takes] using ht, rfl⟩
  · rintro ⟨u, he, htakes, rfl⟩
    cases op with
    | not =>
      obtain rfl : u = .bool := by simpa [UnaryOp.takes] using htakes
      exact .not he
    | negate => exact .negate he (Ty.isNumeric_iff.1 htakes)
    | convert target =>
      cases target with
      | float =>
        obtain rfl : u = .int := by simpa [UnaryOp.takes] using htakes
        exact .toFloat he
      | char =>
        obtain rfl : u = .int := by simpa [UnaryOp.takes] using htakes
        exact .toChar he
      | int => exact .toInt he (by simpa [UnaryOp.takes] using htakes)
      | bool => cases htakes

/-- The type that is computed is the one that the rules give. -/
theorem checkedType_eq_some_iff {e : Expr} {t : Ty} : m.checkedType e = some t ↔ m.HasType e t := by
  induction e generalizing t with
  | var name => exact ⟨.var, fun h => by cases h; assumption⟩
  | literal v =>
    constructor
    · rintro ⟨⟩
      exact .literal v
    · rintro ⟨⟩
      rfl
  | binary op left right ihl ihr =>
    rw [hasType_binary_iff, checkedType]
    simp only [← ihl, ← ihr]
    unfold BinaryOp.checked
    cases m.checkedType left <;> cases m.checkedType right <;> simp
  | unary op e ih =>
    rw [hasType_unary_iff, checkedType]
    simp only [← ih]
    unfold UnaryOp.checked
    cases m.checkedType e <;> simp

/-! ### Faultless trees -/

/-- None of these nodes is at fault. -/
def Faultless (m : TypeMap) (ns : List Node) : Prop := ∀ n ∈ ns, m.fault? n = none

@[simp] theorem faultless_nil : m.Faultless [] := fun _ h => absurd h List.not_mem_nil

@[simp] theorem faultless_cons {n : Node} {ns : List Node} :
    m.Faultless (n :: ns) ↔ m.fault? n = none ∧ m.Faultless ns := List.forall_mem_cons

@[simp] theorem faultless_append {ns ns' : List Node} :
    m.Faultless (ns ++ ns') ↔ m.Faultless ns ∧ m.Faultless ns' := List.forall_mem_append

/-- An expression without a type has a fault: at the node where the type is lost. -/
theorem faultless_expr_iff {e : Expr} : m.Faultless e.preorder ↔ (m.checkedType e).isSome = true := by
  induction e with
  | var name =>
    rw [Expr.preorder, faultless_cons, fault?, checkedType, contains]
    cases m.find? name <;> simp
  | literal v => simp [Expr.preorder, fault?, checkedType]
  | binary op left right ihl ihr =>
    rw [Expr.preorder, faultless_cons, faultless_append, ihl, ihr, fault?]
    cases hl : m.checkedType left with
    | none => simp [checkedType, BinaryOp.checked, hl]
    | some l =>
      cases hr : m.checkedType right with
      | none => simp [checkedType, BinaryOp.checked, hr]
      | some r => cases m.checkedType (.binary op left right) <;> simp
  | unary op e ih =>
    rw [Expr.preorder, faultless_cons, ih, fault?]
    cases he : m.checkedType e with
    | none => simp [checkedType, UnaryOp.checked, he]
    | some t => cases m.checkedType (.unary op e) <;> simp

/-- A test without a fault of its own nor one in its parts is a well-typed test. -/
theorem faultless_test_iff {construct : String} {test : Expr} :
    m.testFault? construct test = none ∧ m.Faultless test.preorder ↔ m.HasType test .bool := by
  rw [faultless_expr_iff, testFault?, ← checkedType_eq_some_iff]
  cases m.checkedType test <;> simp

private theorem faultless_assignment_iff {target : String} {source : Expr} :
    m.Faultless (Stmt.assignment target source).preorder ↔ m.WellTyped (.assignment target source) := by
  rw [Stmt.preorder, faultless_cons, faultless_cons, faultless_expr_iff, fault?, fault?, contains]
  constructor
  · rintro ⟨hfits, htarget, hsource⟩
    obtain ⟨found, hfound⟩ := Option.isSome_iff_exists.1 hsource
    cases hexpected : m.find? target with
    | none => simp [hexpected] at htarget
    | some expected =>
      simp only [hexpected, hfound, ite_eq_left_iff, reduceCtorEq, imp_false, Bool.not_eq_true,
        Bool.not_eq_false] at hfits
      exact .assignment hexpected (checkedType_eq_some_iff.1 hfound) (Ty.accepts_iff.1 hfits)
  · intro h
    cases h with
    | assignment htarget hsource hfits =>
      simp [htarget, checkedType_eq_some_iff.2 hsource, Ty.accepts_iff.2 hfits]

private theorem faultless_preorderAll_iff {stmts : List Stmt} :
    m.Faultless (Stmt.preorderAll stmts) ↔ ∀ s ∈ stmts, m.Faultless s.preorder := by
  induction stmts with
  | nil => simp [Stmt.preorderAll]
  | cons s rest ih => rw [Stmt.preorderAll, faultless_append, ih, List.forall_mem_cons]

/-- A statement is well typed if none of its nodes is at fault. -/
theorem faultless_stmt_iff {s : Stmt} : m.Faultless s.preorder ↔ m.WellTyped s := by
  induction s with
  | skip => simp [Stmt.preorder, fault?, WellTyped.skip]
  | block members ih =>
    rw [Stmt.preorder, faultless_cons, fault?, faultless_preorderAll_iff]
    constructor
    · intro h
      exact .block fun s hs => (ih s hs).1 (h.2 s hs)
    · intro h
      cases h with
      | block hmembers => exact ⟨rfl, fun s hs => (ih s hs).2 (hmembers s hs)⟩
  | assignment target source => exact faultless_assignment_iff
  | ifThen test thenBranch ih =>
    rw [Stmt.preorder, faultless_cons, fault?, faultless_append, ← and_assoc, faultless_test_iff, ih]
    constructor
    · rintro ⟨ht, hs⟩
      exact .ifThen ht hs
    · intro h
      cases h with
      | ifThen ht hs => exact ⟨ht, hs⟩
  | ifElse test thenBranch elseBranch iht ihe =>
    rw [Stmt.preorder, faultless_cons, fault?, faultless_append, faultless_append, iht, ihe, ← and_assoc,
      ← and_assoc, faultless_test_iff]
    constructor
    · rintro ⟨⟨ht, hs⟩, hs'⟩
      exact .ifElse ht hs hs'
    · intro h
      cases h with
      | ifElse ht hs hs' => exact ⟨⟨ht, hs⟩, hs'⟩
  | loop test body ih =>
    rw [Stmt.preorder, faultless_cons, fault?, faultless_append, ← and_assoc, faultless_test_iff, ih]
    constructor
    · rintro ⟨ht, hs⟩
      exact .loop ht hs
    · intro h
      cases h with
      | loop ht hs => exact ⟨ht, hs⟩

/-- A program is without fault if every statement of its body is well typed. -/
theorem faultless_program_iff {p : Program} :
    m.Faultless (Node.program p).preorder ↔ ∀ s ∈ p.body, m.WellTyped s := by
  have hdecls : m.Faultless (p.declarations.map Node.decl) := List.forall_mem_map.2 fun _ _ => rfl
  rw [Node.preorder, Program.preorder, faultless_cons, faultless_append, faultless_preorderAll_iff]
  simp only [fault?, hdecls, faultless_stmt_iff, true_and]

end TypeMap

/-- A check reports no error just when every statement of the body is well typed. -/
theorem Checker.errorCount_check_eq_zero_iff (c : Checker) (p : Program) :
    (c.check p).errorCount = 0 ↔ ∀ s ∈ p.body, c.types.WellTyped s := by
  rw [← TypeMap.faultless_program_iff, errorCount_check, List.length_eq_zero_iff, List.filterMap_eq_nil_iff]
  rfl

end Clite
