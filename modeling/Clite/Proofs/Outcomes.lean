import Clite.Proofs.Parsing.Program
import Clite.Proofs.Parsing.Reports
import Clite.Proofs.Typing.Declarations
import Clite.Proofs.Typing.Faults

/-!
# Results and diagnostics

Whatever a stage reports goes to the listener, and a stage that reports anything refuses its text with the number of
reports.  So the listener hears nothing exactly when the text is accepted, or refused for a repeated declaration alone
(`Outcome.Accounts`).  A stage is entered only if the one before it reported nothing.
-/

namespace Clite

/-- The result tells how many diagnostics the listener has received: none unless errors are the reason of the
refusal. -/
def Outcome.Accounts {α : Type} (o : Outcome α) : Prop :=
  match o.result with
  | .ok _ | .error (.duplicateDeclaration _) => o.delivered.toList = []
  | .error (.rejected _ n) => n = o.delivered.toList.length ∧ 0 < n
  | .error (.typeError _) => False

namespace Checker

theorem delivered_come (c : Checker) (n : Node) :
    (c.come n).reporter.delivered.toList =
      c.reporter.delivered.toList ++ ((c.types.fault? n).map fun e => ⟨e.message, none⟩).toList := by
  unfold come visit
  cases c.types.fault? n with
  | none => exact (List.append_nil _).symm
  | some e => exact Log.toList_push ..

theorem delivered_foldl_come (c : Checker) (ns : List Node) :
    (ns.foldl come c).reporter.delivered.toList =
      c.reporter.delivered.toList ++ (ns.filterMap c.types.fault?).map fun e => ⟨e.message, none⟩ := by
  induction ns generalizing c with
  | nil => simp
  | cons n ns ih =>
    rw [List.foldl_cons, ih, delivered_come, types_come, List.filterMap_cons]
    cases c.types.fault? n <;> simp

/-- The listener keeps what it had and receives the faults of the program. -/
theorem delivered_check (c : Checker) (p : Program) :
    (c.check p).reporter.delivered.toList =
      c.reporter.delivered.toList ++
        ((Node.program p).preorder.filterMap c.types.fault?).map fun e => ⟨e.message, none⟩ := by
  rw [reporter_check]
  exact delivered_foldl_come ..

theorem length_delivered_check (c : Checker) (p : Program) :
    (c.check p).reporter.delivered.toList.length = c.reporter.delivered.toList.length + (c.check p).errorCount := by
  rw [delivered_check, List.length_append, List.length_map, errorCount_check]

/-- A checker is made of the map of the declarations, and has nothing logged yet. -/
theorem ofProgram_eq_ok {p : Program} {delivered : Log Diagnostic} {trace : Log Event} {c : Checker}
    (h : ofProgram p delivered trace = .ok c) :
    TypeMap.build p = .ok c.types ∧ c.reporter = .onto delivered ∧ c.trace = trace.push (.typeMapBuilt c.types) := by
  unfold ofProgram at h
  split at h
  · cases h
  · next types hbuild =>
    cases h
    exact ⟨hbuild, rfl, rfl⟩

theorem exists_ofProgram {p : Program} (h : (p.declarations.map Decl.name).Nodup) (delivered : Log Diagnostic)
    (trace : Log Event) : ∃ c, ofProgram p delivered trace = .ok c := by
  rw [ofProgram, TypeMap.build_of_nodup h]
  exact ⟨_, rfl⟩

end Checker

namespace Pipeline

variable {α : Type} {stage : Stage} {delivered : Log Diagnostic} {trace : Log Event}

theorem accounts_accepted {n : Nat} (h : n = delivered.toList.length) (a : α) :
    (Outcome.mk (accepted stage n a) delivered trace).Accounts := by
  unfold accepted
  split
  · next hn => exact List.length_eq_zero_iff.1 (h.symm.trans hn)
  · next hn => exact ⟨h, Nat.pos_of_ne_zero hn⟩

theorem accounts_tokenize (source : String) : (tokenize source).Accounts := by
  have hconsistent := Lexer.consistent_tokenize source
  have hcount : (Lexer.ofSource source).tokenize.2.errorCount =
      (Lexer.ofSource source).tokenize.2.reporter.delivered.toList.length := by
    rw [hconsistent.delivered, Lexer.diagnostics_tokenize, hconsistent.counted]
  exact accounts_accepted hcount _

theorem accounts_parse (source : String) : (parse source).Accounts := by
  have hconsistent := (Parse.program.reaches_run _).consistent (Parser.consistent_ofSource source)
  have hcount := hconsistent.errorCount_eq
  rw [Parser.diagnostics, ← hconsistent.lexer.delivered] at hcount
  exact accounts_accepted hcount _

/-! ### From stage to stage -/

/-- Parsing a text either gives a program or refuses it with the number of its errors. -/
theorem parse_result_cases (source : String) :
    (∃ p, (parse source).result = .ok p) ∨ ∃ n, (parse source).result = .error (.rejected .parse n) := by
  unfold parse accepted
  dsimp only
  split
  · exact .inl ⟨_, rfl⟩
  · exact .inr ⟨_, rfl⟩

/-- An error-free parse has come to the end of the file. -/
theorem upcoming_of_parse {source : String} {p : Program} (h : (parse source).result = .ok p) :
    (Parse.program.run (.ofSource source)).2.upcoming = [] := by
  have hcount : (Parse.program.run (.ofSource source)).2.errorCount = 0 := (accepted_eq_ok_iff.1 h).1
  have hclean := Nat.eq_zero_of_add_eq_zero_left hcount
  obtain ⟨_, -, -, hnil⟩ := Parse.clean_program _ _ (Parser.regular_ofSource source) rfl hclean
  exact hnil

/-- So behind an error-free parse the scanner has no errors to report in the whole text. -/
theorem tokenize_of_parse {source : String} {p : Program} (h : (parse source).result = .ok p) :
    ∃ tokens, (tokenize source).result = .ok tokens := by
  have hreaches := Parse.program.reaches_run (.ofSource source)
  have hcount : (Parse.program.run (.ofSource source)).2.errorCount = 0 := (accepted_eq_ok_iff.1 h).1
  have hlexical := Nat.eq_zero_of_add_eq_zero_right hcount
  have hnil := upcoming_of_parse h
  have hall := (hreaches.regular (Parser.regular_ofSource source)).lexicalErrors_of_upcoming hnil
  rw [hreaches.lexicalErrors_eq, Parser.lexicalErrors_ofSource, hlexical] at hall
  exact ⟨_, accepted_eq_ok_iff.2 ⟨hall, rfl⟩⟩

/-- A text that is refused by the parser goes no further. -/
theorem check_of_parse_error {source : String} {e : CompileError} (h : (parse source).result = .error e) :
    check source = ⟨.error e, (parse source).delivered, (parse source).trace⟩ := by
  unfold check
  simp only [h]

/-- A repeated name refuses a program before the check begins. -/
theorem check_of_firstRepeat {source : String} {p : Program} (h : (parse source).result = .ok p) {x : String}
    (hx : FirstRepeat p.declarations x) :
    check source = ⟨.error (.duplicateDeclaration x), (parse source).delivered, (parse source).trace⟩ := by
  simp only [check, h, Checker.ofProgram, TypeMap.build_of_firstRepeat hx, TypeError.toCompileError]

/-- A program with distinct names is checked. -/
theorem check_of_nodup {source : String} {p : Program} (h : (parse source).result = .ok p)
    (hnames : (p.declarations.map Decl.name).Nodup) :
    ∃ c, Checker.ofProgram p (parse source).delivered (parse source).trace = .ok c ∧
      check source = ⟨accepted .typeCheck (c.check p).errorCount p, (c.check p).reporter.delivered,
        (c.check p).trace⟩ := by
  obtain ⟨c, hc⟩ := Checker.exists_ofProgram hnames (parse source).delivered (parse source).trace
  refine ⟨c, hc, ?_⟩
  simp only [check, h, hc]

/-- No error but the rejection by its own stage comes of the number of errors. -/
theorem accepted_ne {errors : Nat} {a : α} {e : CompileError} (he : ∀ n, e ≠ .rejected stage n) :
    accepted stage errors a ≠ .error e := by
  unfold accepted
  split
  · nofun
  · exact fun h => he errors (Except.error.inj h).symm

theorem check_eq_rejected_parse_iff (source : String) (n : Nat) :
    (check source).result = .error (.rejected .parse n) ↔ (parse source).result = .error (.rejected .parse n) := by
  rcases parse_result_cases source with ⟨p, hp⟩ | ⟨m, hm⟩
  · rw [hp]
    rcases nodup_or_firstRepeat p.declarations with hnames | ⟨x, hx⟩
    · obtain ⟨c, -, hcheck⟩ := check_of_nodup hp hnames
      rw [hcheck]
      exact iff_of_false (accepted_ne (by simp)) (by simp)
    · rw [check_of_firstRepeat hp hx]
      simp
  · rw [check_of_parse_error hm, hm]

theorem check_eq_duplicate_iff {source : String} {p : Program} (h : (parse source).result = .ok p) (x : String) :
    (check source).result = .error (.duplicateDeclaration x) ↔ FirstRepeat p.declarations x := by
  constructor
  · intro hcheck
    rcases nodup_or_firstRepeat p.declarations with hnames | ⟨y, hy⟩
    · obtain ⟨c, -, hc⟩ := check_of_nodup h hnames
      rw [hc] at hcheck
      exact absurd hcheck (accepted_ne (by simp))
    · rw [check_of_firstRepeat h hy] at hcheck
      obtain rfl : y = x := by simpa using hcheck
      exact hy
  · intro hx
    rw [check_of_firstRepeat h hx]

/-- However a checker of the program is made, it finds the errors that the pipeline finds. -/
theorem check_of_distinct {source : String} {p : Program} (h : (parse source).result = .ok p)
    (hnames : (p.declarations.map Decl.name).Nodup) (delivered : Log Diagnostic) (trace : Log Event) :
    ∃ c, Checker.ofProgram p delivered trace = .ok c ∧
      (check source).result = accepted .typeCheck (c.check p).errorCount p := by
  obtain ⟨c, hc, hcheck⟩ := check_of_nodup h hnames
  obtain ⟨c', hc'⟩ := Checker.exists_ofProgram hnames delivered trace
  have htypes := (Checker.ofProgram_eq_ok hc).1.symm.trans (Checker.ofProgram_eq_ok hc').1
  refine ⟨c', hc', ?_⟩
  rw [hcheck, Checker.errorCount_check, Checker.errorCount_check, Except.ok.inj htypes]

theorem accounts_check (source : String) : (check source).Accounts := by
  have hparse := accounts_parse source
  unfold Outcome.Accounts at hparse
  rcases parse_result_cases source with ⟨p, hp⟩ | ⟨n, hn⟩
  · rw [hp] at hparse
    rcases nodup_or_firstRepeat p.declarations with hnames | ⟨x, hx⟩
    · obtain ⟨c, hc, hcheck⟩ := check_of_nodup hp hnames
      rw [hcheck]
      refine accounts_accepted ?_ p
      rw [Checker.length_delivered_check, (Checker.ofProgram_eq_ok hc).2.1]
      simp [Reporter.onto, hparse]
    · rw [check_of_firstRepeat hp hx]
      exact hparse
  · rw [hn] at hparse
    rw [check_of_parse_error hn]
    exact hparse

/-- The result of each stage accounts for what the listener has received.  A check is refused by the parser when
parsing is; a program that is read is refused for the first name that repeats an earlier one, and if there is none it is
checked, and accepted as it stands if no error is found.  Its text has no lexical errors. -/
theorem outcomes_account (source : String) :
    ((tokenize source).Accounts ∧ (parse source).Accounts ∧ (check source).Accounts) ∧
    (∀ n, (check source).result = .error (.rejected .parse n) ↔
      (parse source).result = .error (.rejected .parse n)) ∧
    ∀ p, (parse source).result = .ok p →
      (∀ x, (check source).result = .error (.duplicateDeclaration x) ↔ FirstRepeat p.declarations x) ∧
      ((¬ ∃ x, FirstRepeat p.declarations x) → ∀ delivered trace, ∃ c,
        Checker.ofProgram p delivered trace = .ok c ∧
          (check source).result =
            if (c.check p).errorCount = 0 then .ok p
            else .error (.rejected .typeCheck (c.check p).errorCount)) ∧
      ∃ tokens, (tokenize source).result = .ok tokens := by
  refine ⟨⟨accounts_tokenize source, accounts_parse source, accounts_check source⟩,
    check_eq_rejected_parse_iff source, fun p hp => ⟨check_eq_duplicate_iff hp, fun hnone => ?_, tokenize_of_parse hp⟩⟩
  exact check_of_distinct hp ((nodup_or_firstRepeat p.declarations).resolve_right hnone)

/-- The second `a` is blamed, and the undeclared `b` is not. -/
theorem check_blames_repeated_name :
    (check "int main(){int a; int a; b = 1;}").result = .error (.duplicateDeclaration "a") := by
  have hparse : (parse "int main(){int a; int a; b = 1;}").result =
      .ok ⟨[⟨"a", .int⟩, ⟨"a", .int⟩], [.assignment "b" (.literal (.int 1)), .skip]⟩ := by decide +kernel
  obtain ⟨-, -, hread⟩ := outcomes_account "int main(){int a; int a; b = 1;}"
  exact ((hread _ hparse).1 "a").2 ⟨[⟨"a", .int⟩], ⟨"a", .int⟩, [], rfl, rfl, by simp, by simp⟩

end Pipeline

end Clite
