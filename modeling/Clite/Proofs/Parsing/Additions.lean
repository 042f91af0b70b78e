import Clite.Proofs.Parsing.Program
import Clite.Proofs.Parsing.ReportOrder

/-!
# What a run adds to the log

Whatever parsing does, the log of the parser behind it is the log before with some reports added (`Parser.Adds`), and
both counts grow by as many as there are reports of their kind.  So a run without a syntax error adds nothing but the
lexical errors of the text that it passes (`Reaches.diagnostics_eq`).
-/

namespace Clite

namespace Piece

/-- Scanning reports lexical errors only. -/
theorem origin_of_mem_eventsFrom {start : Position} {pieces : List Piece} {r : Report}
    (h : r ∈ (eventsFrom start pieces).filterMap Event.report?) : r.origin = .lexical := by
  induction pieces generalizing start with
  | nil => cases h
  | cons piece pieces ih =>
    simp only [eventsFrom, List.filterMap_append, List.mem_append] at h
    rcases h with (h | h) | h
    · cases herror : piece.error? start <;> simp [herror, Event.report?] at h
      rw [h]
    · cases htoken : piece.token? <;> simp [htoken, Event.report?] at h
    · exact ih h

theorem map_diagnostic_eventsFrom (start : Position) (pieces : List Piece) :
    ((eventsFrom start pieces).filterMap Event.report?).map Report.diagnostic = diagnosticsFrom start pieces := by
  rw [← filterMap_lexical?_eventsFrom, List.map_filterMap]
  refine List.filterMap_congr fun e he => ?_
  have hnone := filterMap_eventsFrom_eq_nil (f := Event.syntactic?) (fun _ _ => rfl) (fun _ => rfl) start pieces
  rw [← Event.diagnostic?_eq, Event.diagnostic?, List.filterMap_eq_nil_iff.1 hnone e he, Option.or_none]

end Piece

namespace Parser

variable {p q r : Parser}

/-- From `p` to `q` just these reports are added to the log. -/
structure Adds (p : Parser) (new : List Report) (q : Parser) : Prop where
  diagnostics : q.diagnostics = p.diagnostics ++ new.map Report.diagnostic
  reports : q.lexer.reports = p.lexer.reports ++ new
  syntactic : q.syntaxErrors = p.syntaxErrors + new.countP (·.origin = .syntactic)
  lexical : q.lexer.errorCount = p.lexer.errorCount + new.countP (·.origin = .lexical)

namespace Adds

theorem refl (p : Parser) : p.Adds [] p where
  diagnostics := (List.append_nil _).symm
  reports := (List.append_nil _).symm
  syntactic := rfl
  lexical := rfl

theorem trans {new later : List Report} (h : p.Adds new q) (h' : q.Adds later r) : p.Adds (new ++ later) r where
  diagnostics := by rw [h'.diagnostics, h.diagnostics, List.map_append, List.append_assoc]
  reports := by rw [h'.reports, h.reports, List.append_assoc]
  syntactic := by rw [h'.syntactic, h.syntactic, List.countP_append, Nat.add_assoc]
  lexical := by rw [h'.lexical, h.lexical, List.countP_append, Nat.add_assoc]

theorem report (p : Parser) (e : SyntaxError) : p.Adds [⟨.syntactic, e.message, e.position⟩] (p.report e) where
  diagnostics := Reporter.diagnostics_report _ _
  reports := reports_report p e
  syntactic := rfl
  lexical := rfl

theorem noteProgram (p : Parser) (ds ss : Nat) : p.Adds [] (p.noteProgram ds ss) where
  diagnostics := (List.append_nil _).symm
  reports := by rw [reports_noteProgram, List.append_nil]
  syntactic := rfl
  lexical := rfl

/-- The lexical errors on the way to the next token are added. -/
theorem advance (p : Parser) : ∃ new, p.Adds new p.advance := by
  obtain ⟨passed, -, hbehind⟩ := p.lexer.next_passes
  have hlexer : p.advance.lexer = (p.lexer.behindAll passed).facing p.lexer.next.2.pieces := hbehind
  have horigin : ∀ r ∈ (Piece.eventsFrom p.lexer.position passed).filterMap Event.report?, r.origin = .lexical :=
    fun r hr => Piece.origin_of_mem_eventsFrom hr
  have hdiagnostics := Piece.map_diagnostic_eventsFrom p.lexer.position passed
  have hlength := congrArg List.length hdiagnostics
  rw [List.length_map, Piece.length_diagnosticsFrom] at hlength
  generalize hnew : (Piece.eventsFrom p.lexer.position passed).filterMap Event.report? = new at *
  refine ⟨new, ?_, ?_, ?_, ?_⟩
  · rw [hdiagnostics, Parser.diagnostics, hlexer]
    exact (congrArg Reporter.diagnostics (p.lexer.reporter_behindAll passed)).trans
      (Reporter.diagnostics_foldl_report _ _)
  · have htrace : (p.lexer.behindAll passed).reports = p.lexer.reports ++ new := by
      rw [Lexer.reports, Lexer.trace_behindAll, List.filterMap_append, hnew]
      rfl
    rw [hlexer]
    exact htrace
  · have hnone : new.countP (·.origin = .syntactic) = 0 := by
      refine List.countP_eq_zero.2 fun r hr => ?_
      simp [horigin r hr]
    rw [hnone]
    rfl
  · have hall : new.countP (·.origin = .lexical) = new.length :=
      List.countP_eq_length.2 fun r hr => decide_eq_true (horigin r hr)
    rw [hall, hlength, hlexer, Lexer.errorCount_facing, Lexer.errorCount_behindAll]

end Adds

/-- Parsing only adds to the log. -/
theorem Reaches.adds (h : p.Reaches q) : ∃ new, p.Adds new q := by
  induction h with
  | refl => exact ⟨[], .refl p⟩
  | @advance q _ ih =>
    obtain ⟨new, hnew⟩ := ih
    obtain ⟨later, hlater⟩ := Adds.advance q
    exact ⟨new ++ later, hnew.trans hlater⟩
  | @report q e _ _ ih =>
    obtain ⟨new, hnew⟩ := ih
    exact ⟨_, hnew.trans (.report q e)⟩
  | @reject q e _ _ ih =>
    obtain ⟨new, hnew⟩ := ih
    obtain ⟨later, hlater⟩ := Adds.advance q
    exact ⟨_, (hnew.trans hlater).trans (.report q.advance e)⟩
  | @noteProgram q ds ss _ ih =>
    obtain ⟨new, hnew⟩ := ih
    exact ⟨_, hnew.trans (.noteProgram q ds ss)⟩

/-- The count of syntax errors tells whether one was added. -/
theorem Adds.syntaxErrors_eq_iff {new : List Report} (h : p.Adds new q) :
    q.syntaxErrors = p.syntaxErrors ↔ ∀ r ∈ new, r.origin = .lexical := by
  have horigin (r : Report) : ¬ decide (r.origin = .syntactic) = true ↔ r.origin = .lexical := by
    cases r.origin <;> simp
  have hcount : q.syntaxErrors = p.syntaxErrors ↔ new.countP (·.origin = .syntactic) = 0 := by
    rw [h.syntactic]
    omega
  rw [hcount, List.countP_eq_zero]
  exact forall₂_congr fun r _ => horigin r

/-- Where no syntax error is counted and the text passed is without faults, nothing is added to the log. -/
theorem Reaches.diagnostics_eq (h : p.Reaches q) (hc : q.syntaxErrors = p.syntaxErrors) {passed : List Piece}
    (hpassed : p.lexer.pieces = passed ++ q.lexer.pieces) (hclean : ∀ piece ∈ passed, piece.isFaulty = false) :
    q.diagnostics = p.diagnostics := by
  obtain ⟨new, hnew⟩ := h.adds
  have hlexical := hnew.syntaxErrors_eq_iff.1 hc
  have hfaults : passed.countP Piece.isFaulty = 0 := List.countP_eq_zero.2 fun piece hp => by simp [hclean piece hp]
  have hcount : q.lexer.errorCount = p.lexer.errorCount := by
    have hall := h.lexicalErrors_eq
    simp only [lexicalErrors, hpassed, List.countP_append] at hall
    omega
  have hlength : new.length = 0 := by
    have hadded := hnew.lexical
    rw [List.countP_eq_length.2 fun r hr => decide_eq_true (hlexical r hr)] at hadded
    omega
  rw [hnew.diagnostics, List.length_eq_zero_iff.1 hlength]
  exact List.append_nil _

end Parser

end Clite
