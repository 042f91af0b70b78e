import Clite.Proofs.Parsing.ReportOrder

/-!
# Counts and logs

A parser counts its errors apart from the log: the lexer has a count of the lexical ones, and the parser one of the
others.  At every point of a session the counts, the log and what the listener has received tell the same
(`Parser.session_tallies`), also if the lexer has handed out some tokens before the parser was made.
-/

namespace Clite

namespace Lexer

/-- The lexical diagnostics are those of the lexical reports. -/
theorem lexicalDiagnostics_eq (l : Lexer) :
    l.lexicalDiagnostics = (l.reports.filter (·.origin = .lexical)).map Report.diagnostic := by
  rw [lexicalDiagnostics, reports, List.filter_filterMap, List.map_filterMap]
  refine List.filterMap_congr fun e _ => ?_
  cases e <;> rfl

/-- Wherever a lexer has come to in a text, the errors logged are the first of that text, and none of them is a syntax
error. -/
theorem consistent_nextMany (source : String) (n : Nat) :
    ((ofSource source).nextMany n).2.Consistent ∧ ((ofSource source).nextMany n).2.syntaxDiagnostics = [] := by
  refine nextMany_of_next (motive := fun l => l.Consistent ∧ l.syntaxDiagnostics = []) ?_ ?_ n
  · rintro l ⟨hconsistent, hnone⟩
    exact ⟨hconsistent.next, l.syntaxDiagnostics_next.trans hnone⟩
  · exact ⟨consistent_ofSource source, rfl⟩

end Lexer

namespace Parser

/-- A parser that is made behind the first tokens of a text still has the lexical errors of the whole text, logged or
before it. -/
theorem lexicalDiagnostics_ofLexer_nextMany (source : String) (n : Nat) :
    (ofLexer ((Lexer.ofSource source).nextMany n).2).lexicalDiagnostics =
      (Lexer.ofSource source).tokenize.2.reporter.diagnostics := by
  have hall (l : Lexer) : (ofLexer l).lexicalDiagnostics =
      l.lexicalDiagnostics ++ Piece.diagnosticsFrom l.position l.pieces := l.lexicalDiagnostics_next
  rw [hall, Lexer.diagnostics_tokenize_eq]
  refine Lexer.nextMany_of_next (motive := fun l => l.lexicalDiagnostics ++ Piece.diagnosticsFrom l.position l.pieces =
    Piece.diagnosticsFrom .start (Piece.split source.toList)) ?_ rfl n
  intro l hl
  exact l.lexicalDiagnostics_next.trans hl

/-- At every point of a session on a text, even if the first tokens were skipped, as many errors are counted as are in
the log, the listener has received the log, and the count of the lexer is that of the lexical reports in it, which are
the first errors of the text.  What is read next leaves in the log what is there. -/
theorem session_tallies (source : String) (skipped : Nat) (constructs : List Construct) :
    let p := ((ofLexer ((Lexer.ofSource source).nextMany skipped).2).readAll constructs).2
    let lexical := p.lexer.reports.filter (·.origin = .lexical)
    p.errorCount = p.diagnostics.length ∧
    p.diagnostics = p.lexer.reporter.delivered.toList ∧
    p.diagnostics = p.lexer.reports.map Report.diagnostic ∧
    p.lexer.errorCount = lexical.length ∧
    lexical.map Report.diagnostic <+: (Lexer.ofSource source).tokenize.2.reporter.diagnostics ∧
    ∀ c : Construct, p.diagnostics <+: (c.read p).2.diagnostics := by
  intro p lexical
  obtain ⟨hlexer, hnone⟩ := Lexer.consistent_nextMany source skipped
  have hreaches : (ofLexer ((Lexer.ofSource source).nextMany skipped).2).Reaches p := reaches_readAll _ constructs
  have hp : p.Consistent := hreaches.consistent (consistent_ofLexer hlexer hnone)
  have hall : p.lexicalDiagnostics = (Lexer.ofSource source).tokenize.2.reporter.diagnostics :=
    hreaches.lexicalDiagnostics_eq.trans (lexicalDiagnostics_ofLexer_nextMany source skipped)
  refine ⟨hp.errorCount_eq, hp.lexer.delivered.symm, hp.lexer.diagnostics_eq, ?_, ?_, ?_⟩
  · rw [hp.lexer.counted, Lexer.lexicalDiagnostics_eq, List.length_map]
  · rw [← Lexer.lexicalDiagnostics_eq, ← hall]
    exact List.prefix_append _ _
  · intro c
    exact (reaches_read c p).diagnostics_le

end Parser

end Clite
