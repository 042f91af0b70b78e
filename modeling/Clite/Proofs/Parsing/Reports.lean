import Clite.Parser.Session
import Clite.Proofs.Lexing.Reports
import Clite.Proofs.Parsing.Clean

/-!
# What is reported while a text is parsed

Lexical and syntax errors go into one log, in the order in which they are met, and each kind has its own count
(`Parser.Consistent`).  Parsing meets the lexical errors of the text one after the other and loses none
(`Parser.Reaches.lexicalDiagnostics_eq`).  All of this is kept by each kind of step, so it is true at every point of a
session.
-/

namespace Clite.Parser

/-! ### Log and counts -/

/-- The log, the listener and the trace have the same errors, and both kinds of them are counted. -/
structure Consistent (p : Parser) : Prop where
  lexer : p.lexer.Consistent
  counted : p.syntaxErrors = p.lexer.syntaxDiagnostics.length

/-- A new parser has no syntax errors, so there must be none in the log of its lexer. -/
theorem consistent_ofLexer {l : Lexer} (h : l.Consistent) (hnone : l.syntaxDiagnostics = []) :
    (ofLexer l).Consistent where
  lexer := h.next
  counted := by
    rw [ofLexer, Lexer.syntaxDiagnostics_next, hnone]
    rfl

theorem consistent_ofSource (source : String) : (ofSource source).Consistent :=
  consistent_ofLexer (Lexer.consistent_ofSource source) rfl

theorem Consistent.advance {p : Parser} (h : p.Consistent) : p.advance.Consistent where
  lexer := h.lexer.next
  counted := by rw [syntaxErrors_advance, Parser.advance, Lexer.syntaxDiagnostics_next, h.counted]

theorem Consistent.report {p : Parser} (h : p.Consistent) (e : SyntaxError) : (p.report e).Consistent where
  lexer := by
    constructor
    · simp [Parser.report, Reporter.error, h.lexer.log, Event.diagnostic?, Event.lexical?, Event.syntactic?]
    · simp [Parser.report, Reporter.error, Reporter.report, Reporter.diagnostics, h.lexer.delivered]
    · simp [Parser.report, Lexer.lexicalDiagnostics, Event.lexical?, h.lexer.counted]
  counted := by simp [Parser.report, Lexer.syntaxDiagnostics, Event.syntactic?, h.counted]

theorem Consistent.noteProgram {p : Parser} (h : p.Consistent) (ds ss : Nat) : (p.noteProgram ds ss).Consistent where
  lexer := h.lexer.emit rfl
  counted := by simp [Parser.noteProgram, Lexer.emit, Lexer.syntaxDiagnostics, Event.syntactic?, h.counted]

theorem Reaches.consistent {p q : Parser} (h : p.Reaches q) (hp : p.Consistent) : q.Consistent := by
  induction h with
  | refl => exact hp
  | advance _ ih => exact ih.advance
  | report _ _ ih => exact ih.report _
  | reject _ _ ih => exact ih.advance.report _
  | noteProgram ds ss _ ih => exact ih.noteProgram ds ss

/-- As many errors are counted as are logged. -/
theorem Consistent.errorCount_eq {p : Parser} (h : p.Consistent) : p.errorCount = p.diagnostics.length := by
  rw [errorCount, diagnostics, h.lexer.length_diagnostics, h.lexer.counted, h.counted]

theorem Consistent.syntaxDiagnostics_eq_nil {p : Parser} (h : p.Consistent) (hnone : p.syntaxErrors = 0) :
    p.lexer.syntaxDiagnostics = [] :=
  List.length_eq_zero_iff.1 (h.counted.symm.trans hnone)

/-- A log without lexical and without syntax errors is empty. -/
theorem Consistent.diagnostics_eq_nil {p : Parser} (h : p.Consistent) (hlexical : p.lexer.lexicalDiagnostics = [])
    (herrors : p.syntaxErrors = 0) : p.diagnostics = [] := by
  rw [← List.length_eq_zero_iff, ← h.errorCount_eq, errorCount, h.lexer.counted, hlexical, herrors]
  rfl

/-! ### The log grows -/

theorem diagnostics_le_advance (p : Parser) : p.diagnostics <+: p.advance.diagnostics := by
  obtain ⟨pieces, -, hbehind⟩ := p.lexer.next_passes
  have hreporter : p.advance.lexer.reporter = (p.lexer.behindAll pieces).reporter := by
    show p.lexer.next.2.reporter = _
    rw [hbehind]
    rfl
  rw [diagnostics, diagnostics, hreporter, Lexer.reporter_behindAll, Reporter.diagnostics_foldl_report]
  exact List.prefix_append _ _

theorem diagnostics_le_report (p : Parser) (e : SyntaxError) : p.diagnostics <+: (p.report e).diagnostics := by
  have hreport : (p.report e).diagnostics = p.diagnostics ++ [⟨e.message, some e.position⟩] :=
    Reporter.diagnostics_report _ _
  rw [hreport]
  exact List.prefix_append _ _

/-- What is logged stays in the log, and the rest is logged behind it. -/
theorem Reaches.diagnostics_le {p q : Parser} (h : p.Reaches q) : p.diagnostics <+: q.diagnostics := by
  induction h with
  | refl => exact List.prefix_refl _
  | advance _ ih => exact ih.trans (diagnostics_le_advance _)
  | report _ _ ih => exact ih.trans (diagnostics_le_report _ _)
  | reject _ _ ih => exact ih.trans ((diagnostics_le_advance _).trans (diagnostics_le_report _ _))
  | noteProgram _ _ _ ih => exact ih

/-! ### What comes from the text -/

/-- Of events that a parser does not add on its own, what has been noted and what is still to come stay the same. -/
theorem Reaches.filterMap_trace {α : Type} {f : Event → Option α} (hsyntactic : ∀ e, f (.syntaxError e) = none)
    (hparsed : ∀ ds ss errors, f (.parsed ds ss errors) = none) {p q : Parser} (h : p.Reaches q) :
    q.lexer.trace.toList.filterMap f ++ (Piece.eventsFrom q.lexer.position q.lexer.pieces).filterMap f =
      p.lexer.trace.toList.filterMap f ++ (Piece.eventsFrom p.lexer.position p.lexer.pieces).filterMap f := by
  have hadvance (r : Parser) := congrArg (List.filterMap f) r.lexer.trace_next
  have hreport (r : Parser) (e : SyntaxError) :
      (r.report e).lexer.trace.toList.filterMap f = r.lexer.trace.toList.filterMap f := by
    simp [Parser.report, hsyntactic]
  have hnote (r : Parser) (ds ss : Nat) :
      (r.noteProgram ds ss).lexer.trace.toList.filterMap f = r.lexer.trace.toList.filterMap f := by
    simp [Parser.noteProgram, Lexer.emit, hparsed]
  simp only [List.filterMap_append] at hadvance
  induction h with
  | refl => rfl
  | @advance q _ ih => exact (hadvance q).trans ih
  | report _ _ ih =>
    rw [hreport]
    exact ih
  | @reject q _ _ _ ih =>
    rw [hreport]
    exact (hadvance q).trans ih
  | noteProgram ds ss _ ih =>
    rw [hnote]
    exact ih

/-! ### Lexical errors -/

/-- The lexical diagnostics logged and those of the pieces still to be scanned. -/
def lexicalDiagnostics (p : Parser) : List Diagnostic :=
  p.lexer.lexicalDiagnostics ++ Piece.diagnosticsFrom p.lexer.position p.lexer.pieces

/-- Parsing neither adds lexical diagnostics nor loses any. -/
theorem Reaches.lexicalDiagnostics_eq {p q : Parser} (h : p.Reaches q) :
    q.lexicalDiagnostics = p.lexicalDiagnostics := by
  have hlexical := h.filterMap_trace (f := Event.lexical?) (fun _ => rfl) (fun _ _ _ => rfl)
  rw [Piece.filterMap_lexical?_eventsFrom, Piece.filterMap_lexical?_eventsFrom] at hlexical
  exact hlexical

theorem lexicalDiagnostics_ofSource (source : String) :
    (ofSource source).lexicalDiagnostics = (Lexer.ofSource source).tokenize.2.reporter.diagnostics := by
  rw [Lexer.diagnostics_tokenize, Lexer.lexicalDiagnostics_tokenize]
  exact (Lexer.ofSource source).lexicalDiagnostics_next

/-- Of the lexical errors of a text a parser has logged the first, and at the end of the file all. -/
theorem Reaches.lexicalDiagnostics_prefix {source : String} {p : Parser} (h : (ofSource source).Reaches p) :
    p.lexer.lexicalDiagnostics <+: (Lexer.ofSource source).tokenize.2.reporter.diagnostics ∧
      (p.current.kind = .endOfFile →
        p.lexer.lexicalDiagnostics = (Lexer.ofSource source).tokenize.2.reporter.diagnostics) := by
  have hall : p.lexicalDiagnostics = (Lexer.ofSource source).tokenize.2.reporter.diagnostics :=
    h.lexicalDiagnostics_eq.trans (lexicalDiagnostics_ofSource source)
  rw [← hall, lexicalDiagnostics]
  refine ⟨List.prefix_append _ _, fun hend => ?_⟩
  rw [(h.regular (regular_ofSource source)).pieces_of_endOfFile hend, Piece.diagnosticsFrom, List.append_nil]

/-! ### Sessions -/

theorem reaches_read (c : Construct) (p : Parser) : p.Reaches (c.read p).2 := by
  cases c with
  | program => exact Parse.program.reaches_run p
  | declarations => exact Parse.declarations.reaches_run p
  | statements => exact Parse.statements.reaches_run p
  | statement => exact Parse.statement.reaches_run p
  | expression => exact Parse.expression.reaches_run p
  | level level => exact (Parse.atLevel level).reaches_run p
  | factor => exact Parse.factor.reaches_run p
  | primary => exact Parse.primary.reaches_run p

theorem reaches_readAll (p : Parser) (constructs : List Construct) : p.Reaches (p.readAll constructs).2 := by
  induction constructs generalizing p with
  | nil => exact .refl
  | cons c cs ih => exact (reaches_read c p).trans (ih _)

end Clite.Parser
