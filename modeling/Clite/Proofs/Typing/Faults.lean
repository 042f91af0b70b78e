import Clite.Proofs.Typing.Memo
import Clite.Typing.Checker

/-!
# Faults

A node is at fault if it breaks a rule of its own over parts that are well typed (`TypeMap.fault?`).  A checker
reports the faults of the nodes in pre-order, each of them once, and nothing else.  It goes through a program with a
memo, and whenever it comes to a node the memo agrees with the program: so the error that it finds there is the
fault of the node, with the types that `checkedType` finds for each part anew (`Checker.nodeError?_spec`).  A check
is thus a walk in which no memo is needed (`Checker.check_eq_walk`).
-/

namespace Clite

namespace TypeMap

/-- What the test of the statement `construct` is blamed for. -/
def testFault? (m : TypeMap) (construct : String) (test : Expr) : Option TypeError :=
  match m.checkedType test with
  | some found => if found = .bool then none else some (.nonBooleanTest construct found)
  | none => none

/-- What a node is blamed for: an undeclared name; an operator without a type over operands that have one; a value
that its target does not accept; a test that has a type other than `bool`. -/
def fault? (m : TypeMap) : Node → Option TypeError
  | .expr (.var name) | .target name => if m.contains name then none else some (.undefinedVariable name)
  | .expr (.binary op left right) =>
    match m.checkedType (.binary op left right), m.checkedType left, m.checkedType right with
    | none, some l, some r => some (.operandMismatch op l r)
    | _, _, _ => none
  | .expr (.unary op operand) =>
    match m.checkedType (.unary op operand), m.checkedType operand with
    | none, some t => some (.invalidOperand op t)
    | _, _ => none
  | .stmt (.assignment target source) =>
    match m.find? target, m.checkedType source with
    | some expected, some found =>
      if expected.accepts found then none else some (.assignmentMismatch target expected found)
    | _, _ => none
  | .stmt (.ifThen test _) | .stmt (.ifElse test _ _) => m.testFault? "if statement" test
  | .stmt (.loop test _) => m.testFault? "while loop" test
  | .program _ | .decl _ | .stmt .skip | .stmt (.block _) | .expr (.literal _) => none

end TypeMap

namespace Checker

/-! ### The rule of each kind of node -/

section Rules

variable (m : TypeMap)

theorem binaryError?_eq (op : BinaryOp) (left right : Expr) :
    binaryError? op (m.checkedType left) (m.checkedType right) = m.fault? (.expr (.binary op left right)) := by
  rw [TypeMap.fault?, TypeMap.checkedType]
  cases m.checkedType left with
  | none => simp [binaryError?]
  | some l =>
    cases m.checkedType right with
    | none => simp [binaryError?]
    | some r =>
      rw [binaryError?, BinaryOp.error?, BinaryOp.checked]
      split <;> rfl

theorem unaryError?_eq (op : UnaryOp) (operand : Expr) :
    unaryError? op (m.checkedType operand) = m.fault? (.expr (.unary op operand)) := by
  rw [TypeMap.fault?, TypeMap.checkedType]
  cases m.checkedType operand with
  | none => simp [unaryError?]
  | some t =>
    rw [unaryError?, UnaryOp.error?, UnaryOp.checked]
    split <;> rfl

theorem assignmentError?_eq (target : String) (source : Expr) :
    assignmentError? target (m.find? target) (m.checkedType source) =
      m.fault? (.stmt (.assignment target source)) := by
  rw [TypeMap.fault?]
  cases m.find? target with
  | none => rfl
  | some expected => cases m.checkedType source <;> rfl

theorem testError?_eq (construct : String) (test : Expr) :
    testError? construct (m.checkedType test) = m.testFault? construct test := by
  rw [TypeMap.testFault?]
  cases m.checkedType test <;> rfl

end Rules

/-! ### Coming to the nodes in pre-order -/

/-- Comes to a node and reports its fault. -/
def come (c : Checker) (n : Node) : Checker := c.visit n.kind (c.types.fault? n)

@[simp] theorem types_visit (c : Checker) (kind : NodeKind) (error : Option TypeError) :
    (c.visit kind error).types = c.types := by
  unfold visit
  split <;> rfl

@[simp] theorem types_come (c : Checker) (n : Node) : (c.come n).types = c.types := c.types_visit ..

@[simp] theorem types_foldl_come (c : Checker) (ns : List Node) : (ns.foldl come c).types = c.types := by
  induction ns generalizing c with
  | nil => rfl
  | cons n ns ih => rw [List.foldl_cons, ih, types_come]

theorem diagnostics_come (c : Checker) (n : Node) :
    (c.come n).diagnostics = c.diagnostics ++ ((c.types.fault? n).map fun e => ⟨e.message, none⟩).toList := by
  unfold come visit
  cases c.types.fault? n with
  | none => exact (List.append_nil _).symm
  | some e => exact Reporter.diagnostics_report ..

theorem diagnostics_foldl_come (c : Checker) (ns : List Node) :
    (ns.foldl come c).diagnostics =
      c.diagnostics ++ (ns.filterMap c.types.fault?).map fun e => ⟨e.message, none⟩ := by
  induction ns generalizing c with
  | nil => simp
  | cons n ns ih =>
    rw [List.foldl_cons, ih, diagnostics_come, types_come, List.filterMap_cons]
    cases c.types.fault? n <;> simp

/-! ### Going through a program with a memo -/

section Nodes

variable {m : TypeMap} {nodes : List Node} {memo : Memo} {address : Nat} {n : Node}

private theorem testError?_spec {test : Expr} {construct : String} (hmemo : memo.Agrees m nodes)
    (htest : (Node.expr test).StandsAt nodes address) :
    testError? construct (m.known address test memo).1 = m.testFault? construct test ∧
      (m.known address test memo).2.Agrees m nodes := by
  obtain ⟨htype, hagrees⟩ := TypeMap.known_spec htest hmemo
  rw [htype, testError?_eq]
  exact ⟨rfl, hagrees⟩

/-- With a memo that agrees with the program, the error found at a node is its fault, and the memo goes on to agree. -/
theorem nodeError?_spec (h : n.StandsAt nodes address) (hmemo : memo.Agrees m nodes) :
    (nodeError? m address memo n).1 = m.fault? n ∧ (nodeError? m address memo n).2.Agrees m nodes := by
  cases n with
  | program | decl | target => exact ⟨rfl, hmemo⟩
  | expr e =>
    cases e with
    | var | literal => exact ⟨rfl, hmemo⟩
    | binary op left right =>
      obtain ⟨hleft, hright⟩ := h.operands
      obtain ⟨hl, hmemol⟩ := TypeMap.known_spec hleft hmemo
      obtain ⟨hr, hmemor⟩ := TypeMap.known_spec hright hmemol
      refine ⟨?_, hmemor⟩
      rw [← binaryError?_eq, ← hl, ← hr]
      rfl
    | unary op operand =>
      have hoperand : (Node.expr operand).StandsAt nodes (address + 1) := h.below [] [] rfl
      obtain ⟨ht, hmemot⟩ := TypeMap.known_spec hoperand hmemo
      refine ⟨?_, hmemot⟩
      rw [← unaryError?_eq, ← ht]
      rfl
  | stmt s =>
    cases s with
    | skip | block => exact ⟨rfl, hmemo⟩
    | assignment target source =>
      have hsource : (Node.expr source).StandsAt nodes (address + 2) := h.below [.target target] [] rfl
      obtain ⟨hfound, hmemo'⟩ := TypeMap.known_spec hsource hmemo
      refine ⟨?_, hmemo'⟩
      rw [← assignmentError?_eq, ← hfound]
      rfl
    | ifThen test thenBranch => exact testError?_spec hmemo (h.below [] [.stmt thenBranch] rfl)
    | ifElse test thenBranch elseBranch =>
      exact testError?_spec hmemo (h.below [] [.stmt thenBranch, .stmt elseBranch] rfl)
    | loop test body => exact testError?_spec hmemo (h.below [] [.stmt body] rfl)

end Nodes

namespace Pass

variable {root n : Node} {rest : List Node} {s : Pass}

/-- On its way through a tree a checker has come to the node that is next, and its memo agrees with the tree. -/
structure Along (root : Node) (rest : List Node) (s : Pass) : Prop where
  ahead : root.preorder.drop s.address = rest
  memo : s.memo.Agrees s.checker.types root.preorder

theorem along_start (c : Checker) (root : Node) : (start c).Along root root.preorder := ⟨rfl, Memo.agrees_empty⟩

/-- At each node its fault is reported. -/
theorem Along.visit (h : s.Along root (n :: rest)) :
    (Pass.visit.after s n).checker = s.checker.come n ∧ (Pass.visit.after s n).Along root rest := by
  have hsuffix : n :: rest <:+ root.preorder := h.ahead ▸ List.drop_suffix ..
  have hstands : n.StandsAt root.preorder s.address := by
    rw [Node.StandsAt, h.ahead]
    exact Node.preorder_isPrefix hsuffix
  obtain ⟨herror, hmemo⟩ := nodeError?_spec hstands h.memo
  have hcome : (Pass.visit.after s n).checker = s.checker.come n := by
    rw [come, ← herror]
    rfl
  refine ⟨hcome, ?_, ?_⟩
  · change root.preorder.drop (s.address + 1) = rest
    rw [← List.drop_drop, h.ahead]
    rfl
  · rw [hcome, types_come]
    exact hmemo

/-- At any stage the faults so far are reported, and the memo agrees with the whole tree. -/
theorem Along.foldl {done : List Node} (h : s.Along root (done ++ rest)) :
    (done.foldl Pass.visit.after s).checker = done.foldl come s.checker ∧
      (done.foldl Pass.visit.after s).Along root rest := by
  induction done generalizing s with
  | nil => exact ⟨rfl, h⟩
  | cons n done ih =>
    obtain ⟨hcome, halong⟩ := h.visit
    rw [List.foldl_cons, List.foldl_cons, ← hcome]
    exact ih halong

/-- Whenever a check has come past some of the nodes, all that its memo holds are checked types. -/
theorem agrees_foldl_start (c : Checker) {done : List Node} (h : root.preorder = done ++ rest) :
    (done.foldl Pass.visit.after (start c)).memo.Agrees c.types root.preorder := by
  have halong := along_start c root
  rw [h] at halong
  obtain ⟨hcome, hbehind⟩ := halong.foldl
  have hmemo := hbehind.memo
  rw [hcome, types_foldl_come] at hmemo
  exact hmemo

end Pass

/-! ### A check is a walk -/

/-- A checker goes through a program as a walk does, and comes to every node of it. -/
theorem check_eq_walk (c : Checker) (p : Program) :
    c.check p =
      let checked :=
        (Node.program p).walk (fun n c => (.enter, c.come n)) { c with reporter := c.reporter.clear }
      { checked with trace := checked.trace.push (.checked checked.reporter.count) } := by
  have halong := Pass.along_start { c with reporter := c.reporter.clear } (.program p)
  rw [← List.append_nil (Node.program p).preorder] at halong
  rw [check, Node.walk_of_enter fun _ _ => rfl, Node.walk_of_enter fun _ _ => rfl, halong.foldl.1]
  rfl

theorem reporter_check (c : Checker) (p : Program) :
    (c.check p).reporter =
      ((Node.program p).preorder.foldl come { c with reporter := c.reporter.clear }).reporter := by
  rw [check_eq_walk, Node.walk_of_enter fun _ _ => rfl]
  rfl

/-- A check reports the faults of all nodes in pre-order, one diagnostic each. -/
theorem diagnostics_check (c : Checker) (p : Program) :
    (c.check p).diagnostics =
      ((Node.program p).preorder.filterMap c.types.fault?).map fun e => ⟨e.message, none⟩ := by
  rw [diagnostics, reporter_check]
  exact diagnostics_foldl_come ..

theorem errorCount_check (c : Checker) (p : Program) :
    (c.check p).errorCount = ((Node.program p).preorder.filterMap c.types.fault?).length := by
  have hfold := diagnostics_foldl_come { c with reporter := c.reporter.clear } (Node.program p).preorder
  rw [errorCount, reporter_check, ← Reporter.length_diagnostics, ← diagnostics, hfold]
  exact List.length_map _

end Checker

end Clite
