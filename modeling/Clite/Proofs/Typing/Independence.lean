import Clite.Proofs.Outcomes
import Clite.Proofs.Tree.WellFormed

/-!
# What a check hangs on

The faults of a program are those of its statements (`TypeMap.faultsIn_program`), and what a statement is blamed for
hangs on a type map only by the types of the names in it (`TypeMap.AgreeOn.faultsIn_eq`).  Neither the order of the
declarations nor a declared name that is never used makes a difference, and what a checker has checked before makes none
either: only the listener remembers it.
-/

namespace Clite

namespace TypeMap

variable {m m' : TypeMap} {n : Node}

/-- The faults of a node and of all that it is put together of, in pre-order. -/
def faultsIn (m : TypeMap) (n : Node) : List TypeError := n.preorder.filterMap m.fault?

theorem faultsIn_eq (m : TypeMap) (n : Node) : m.faultsIn n = (m.fault? n).toList ++ n.parts.flatMap m.faultsIn := by
  rw [faultsIn, Node.preorder_eq, List.filterMap_cons, List.filterMap_flatMap]
  cases m.fault? n <;> rfl

/-- No fault lies in the declarations. -/
theorem faultsIn_program (m : TypeMap) (p : Program) :
    m.faultsIn (.program p) = p.body.flatMap fun s => m.faultsIn (.stmt s) := by
  have hdecls : (p.declarations.map Node.decl).flatMap m.faultsIn = [] := by
    rw [List.flatMap_map]
    exact List.flatMap_eq_nil_iff.2 fun _ _ => rfl
  rw [faultsIn_eq, Node.parts, List.flatMap_append, hdecls, List.flatMap_map]
  rfl

/-! ### Names that occur -/

/-- The maps have the same types, or none, for the names in a tree. -/
def AgreeOn (m m' : TypeMap) (n : Node) : Prop := ∀ x, Atom.name x ∈ n.atoms → m.find? x = m'.find? x

theorem AgreeOn.part (h : m.AgreeOn m' n) {part : Node} (hpart : part ∈ n.parts) : m.AgreeOn m' part := by
  intro x hx
  refine h x ?_
  rw [Node.atoms_eq]
  exact List.mem_append_right _ (List.mem_flatMap.2 ⟨part, hpart, hx⟩)

theorem AgreeOn.name (h : m.AgreeOn m' n) {x : String} (hx : n.atom? = some (.name x)) : m.find? x = m'.find? x := by
  refine h x ?_
  rw [Node.atoms_eq, hx]
  exact List.mem_append_left _ (List.mem_singleton_self _)

theorem AgreeOn.checkedType_eq {e : Expr} (h : m.AgreeOn m' (.expr e)) : m.checkedType e = m'.checkedType e := by
  induction e with
  | var x => exact h.name rfl
  | literal v => rfl
  | binary op left right ihl ihr =>
    rw [checkedType, checkedType, ihl (h.part (by simp [Node.parts])), ihr (h.part (by simp [Node.parts]))]
  | unary op operand ih => rw [checkedType, checkedType, ih (h.part (by simp [Node.parts]))]

theorem AgreeOn.testFault?_eq {test : Expr} (h : m.AgreeOn m' (.expr test)) (construct : String) :
    m.testFault? construct test = m'.testFault? construct test := by
  rw [testFault?, testFault?, h.checkedType_eq]

/-- What a node is blamed for hangs on the types of the names in it alone. -/
theorem AgreeOn.fault?_eq (h : m.AgreeOn m' n) : m.fault? n = m'.fault? n := by
  cases n with
  | program | decl => rfl
  | target x => rw [fault?, fault?, contains, contains, h.name rfl]
  | expr e =>
    cases e with
    | var x => rw [fault?, fault?, contains, contains, h.name rfl]
    | literal v => rfl
    | binary op left right =>
      have hleft : m.AgreeOn m' (.expr left) := h.part (by simp [Node.parts])
      have hright : m.AgreeOn m' (.expr right) := h.part (by simp [Node.parts])
      rw [fault?, fault?, h.checkedType_eq, hleft.checkedType_eq, hright.checkedType_eq]
    | unary op operand =>
      have hoperand : m.AgreeOn m' (.expr operand) := h.part (by simp [Node.parts])
      rw [fault?, fault?, h.checkedType_eq, hoperand.checkedType_eq]
  | stmt s =>
    cases s with
    | skip | block => rfl
    | assignment x source =>
      have htarget : m.AgreeOn m' (.target x) := h.part (by simp [Node.parts])
      have hsource : m.AgreeOn m' (.expr source) := h.part (by simp [Node.parts])
      rw [fault?, fault?, htarget.name rfl, hsource.checkedType_eq]
    | ifThen test | ifElse test | loop test =>
      have htest : m.AgreeOn m' (.expr test) := h.part (by simp [Node.parts])
      exact htest.testFault?_eq _

/-- So maps that agree on the names in a tree find the same faults in it. -/
theorem AgreeOn.faultsIn_eq (h : m.AgreeOn m' n) : m.faultsIn n = m'.faultsIn n := by
  induction n using Node.induction with
  | h n ih =>
    rw [m.faultsIn_eq, m'.faultsIn_eq, h.fault?_eq, List.flatMap_congr fun part hpart => ih part hpart (h.part hpart)]

/-- Maps of declarations agree where the same is declared. -/
theorem agreeOn_extend {ds ds' : List Decl} (hds : (ds.map Decl.name).Nodup) (hds' : (ds'.map Decl.name).Nodup)
    (h : ∀ x, Atom.name x ∈ n.atoms → ∀ t, ⟨x, t⟩ ∈ ds ↔ ⟨x, t⟩ ∈ ds') :
    (empty.extend ds).AgreeOn (empty.extend ds') n := by
  intro x hx
  refine Option.ext fun t => ?_
  rw [find?_extend_empty hds, find?_extend_empty hds', h x hx]

end TypeMap

namespace Checker

/-- What the latest check has found. -/
def report (c : Checker) : Nat × List Diagnostic := (c.errorCount, c.diagnostics)

theorem report_check (c : Checker) (p : Program) :
    (c.check p).report =
      ((c.types.faultsIn (.program p)).length, (c.types.faultsIn (.program p)).map fun e => ⟨e.message, none⟩) := by
  rw [report, errorCount_check, diagnostics_check]
  rfl

/-- The same is found in the same statements over maps that agree on the names in them. -/
theorem report_check_congr {c c' : Checker} {p p' : Program} (hbody : p.body = p'.body)
    (h : ∀ s ∈ p.body, c.types.AgreeOn c'.types (.stmt s)) : (c.check p).report = (c'.check p').report := by
  rw [report_check, report_check, TypeMap.faultsIn_program, TypeMap.faultsIn_program, ← hbody,
    List.flatMap_congr fun s hs => (h s hs).faultsIn_eq]

/-! ### One check after the other -/

/-- The checkers behind the checks of programs that follow one another. -/
def checkEach (c : Checker) : List Program → List Checker
  | [] => []
  | p :: ps => c.check p :: (c.check p).checkEach ps

theorem types_check (c : Checker) (p : Program) : (c.check p).types = c.types := by
  rw [check_eq_walk, Node.walk_of_enter fun _ _ => rfl]
  exact types_foldl_come ..

/-- What was checked before does not show. -/
theorem map_report_checkEach {c fresh : Checker} (h : fresh.types = c.types) (ps : List Program) :
    (c.checkEach ps).map report = ps.map fun p => (fresh.check p).report := by
  induction ps generalizing c with
  | nil => rfl
  | cons p ps ih =>
    have hp : (c.check p).report = (fresh.check p).report := by rw [report_check, report_check, h]
    rw [checkEach, List.map_cons, List.map_cons, hp, ih (by rw [types_check, h])]

theorem size_delivered_check (c : Checker) (p : Program) :
    (c.check p).reporter.delivered.size = c.reporter.delivered.size + (c.check p).errorCount := by
  rw [← Log.length_toList, ← Log.length_toList, length_delivered_check]

/-- But the listener has received what was found in all checks so far. -/
theorem size_delivered_checkEach {c c' : Checker} {ps : List Program} {i : Nat} (h : (c.checkEach ps)[i]? = some c') :
    c'.reporter.delivered.size =
      (((c.checkEach ps).take (i + 1)).map errorCount).foldl (· + ·) c.reporter.delivered.size := by
  induction ps generalizing c i with
  | nil => cases h
  | cons p ps ih =>
    rw [checkEach] at h ⊢
    rw [List.take_succ_cons, List.map_cons, List.foldl_cons, ← size_delivered_check]
    cases i with
    | zero =>
      obtain rfl : c.check p = c' := Option.some.inj h
      rfl
    | succ i => exact ih h

/-- If two programs declare the same of the names that occur in some statements, checkers that are made of them find the
same in a program with these statements.  And whatever a checker has checked, it finds in the next program what a new one
with its types finds; the listener has received as many diagnostics as were found in all checks so far. -/
theorem checks_are_independent :
    (∀ (made₁ made₂ : Program) (body : List Stmt), (made₁.declarations.map Decl.name).Nodup →
      (made₂.declarations.map Decl.name).Nodup →
      (∀ s ∈ body, ∀ x, Atom.name x ∈ (Node.stmt s).atoms →
        ∀ t, ⟨x, t⟩ ∈ made₁.declarations ↔ ⟨x, t⟩ ∈ made₂.declarations) →
      ∀ delivered₁ delivered₂ trace₁ trace₂, ∃ c₁ c₂,
        ofProgram made₁ delivered₁ trace₁ = .ok c₁ ∧ ofProgram made₂ delivered₂ trace₂ = .ok c₂ ∧
        ∀ p₁ p₂ : Program, p₁.body = body → p₂.body = body →
          (c₁.check p₁).diagnostics = (c₂.check p₂).diagnostics ∧
          (c₁.check p₁).errorCount = (c₂.check p₂).errorCount) ∧
    ∀ (c fresh : Checker) (ps : List Program), fresh.types = c.types →
      (c.checkEach ps).map (fun c => (c.errorCount, c.diagnostics)) =
        ps.map (fun p => ((fresh.check p).errorCount, (fresh.check p).diagnostics)) ∧
      ∀ i c', (c.checkEach ps)[i]? = some c' →
        c'.reporter.delivered.size =
          (((c.checkEach ps).take (i + 1)).map errorCount).foldl (· + ·) c.reporter.delivered.size := by
  constructor
  · intro made₁ made₂ body h₁ h₂ hsame delivered₁ delivered₂ trace₁ trace₂
    obtain ⟨c₁, hc₁⟩ := exists_ofProgram h₁ delivered₁ trace₁
    obtain ⟨c₂, hc₂⟩ := exists_ofProgram h₂ delivered₂ trace₂
    refine ⟨c₁, c₂, hc₁, hc₂, ?_⟩
    rintro p₁ p₂ rfl hbody
    have hreport : (c₁.check p₁).report = (c₂.check p₂).report := by
      refine report_check_congr hbody.symm fun s hs => ?_
      rw [(TypeMap.build_eq_ok_iff.1 (ofProgram_eq_ok hc₁).1).2, (TypeMap.build_eq_ok_iff.1 (ofProgram_eq_ok hc₂).1).2]
      exact TypeMap.agreeOn_extend h₁ h₂ (hsame s hs)
    exact ⟨congrArg Prod.snd hreport, congrArg Prod.fst hreport⟩
  · intro c fresh ps htypes
    exact ⟨map_report_checkEach htypes ps, fun i c' => size_delivered_checkEach⟩

/-- Neither the unused `u` nor the order of the others shows in the errors of a statement, and in a second check they are
found again. -/
theorem checks_are_independent_of_unused :
    let body : List Stmt := [.ifThen (.var "a") (.assignment "b" (.var "x"))]
    let made₁ : Program := ⟨[⟨"a", .int⟩, ⟨"b", .bool⟩], body⟩
    let made₂ : Program := ⟨[⟨"u", .char⟩, ⟨"b", .bool⟩, ⟨"a", .int⟩], body⟩
    ∃ c₁ c₂, ofProgram made₁ .empty .empty = .ok c₁ ∧ ofProgram made₂ .empty .empty = .ok c₂ ∧
      (c₁.check made₁).errorCount = 2 ∧ (c₂.check made₂).errorCount = 2 ∧
      (c₁.checkEach [made₁, made₂]).map errorCount = [2, 2] ∧
      ((c₁.check made₁).check made₂).reporter.delivered.size = 4 := by
  intro body made₁ made₂
  have hsame : ∀ s ∈ body, ∀ x, Atom.name x ∈ (Node.stmt s).atoms →
      ∀ t, ⟨x, t⟩ ∈ made₁.declarations ↔ ⟨x, t⟩ ∈ made₂.declarations := by
    intro s hs x hx t
    obtain rfl := List.mem_singleton.1 hs
    have hnames : "a" = x ∨ "b" = x ∨ "x" = x := by
      simpa [Node.atoms, Node.preorder, Stmt.preorder, Expr.preorder, Node.atom?] using hx
    rcases hnames with rfl | rfl | rfl <;> simp [made₁, made₂]
  obtain ⟨hindependent, hsession⟩ := checks_are_independent
  obtain ⟨c₁, c₂, hc₁, hc₂, hchecks⟩ :=
    hindependent made₁ made₂ body (by decide) (by decide) hsame .empty .empty .empty .empty
  have hfirst : (c₁.check made₁).errorCount = 2 := by
    cases hc₁
    decide
  have hsecond : (c₂.check made₂).errorCount = 2 := (hchecks made₁ made₂ rfl rfl).2.symm.trans hfirst
  obtain ⟨hreports, htotals⟩ := hsession c₁ c₁ [made₁, made₂] rfl
  have hcounts : (c₁.checkEach [made₁, made₂]).map errorCount = [2, 2] := by
    have hmapped := congrArg (List.map Prod.fst) hreports
    rw [List.map_map] at hmapped
    rw [← hfirst]
    refine hmapped.trans ?_
    simp [(hchecks made₂ made₂ rfl rfl).2, hfirst, hsecond]
  refine ⟨c₁, c₂, hc₁, hc₂, hfirst, hsecond, hcounts, ?_⟩
  have htotal := htotals 1 _ rfl
  rw [(ofProgram_eq_ok hc₁).2.1, List.take_of_length_le (by simp [checkEach]), hcounts] at htotal
  exact htotal

end Checker

end Clite
