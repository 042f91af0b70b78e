import Clite.Proofs.Parsing.Reports

/-!
# The order of the reports

Lexer and parser write into one log, and the lexer is a token ahead.  Each of them goes forward through the text, and
what is wrong in front of a token is in the log before the parser speaks of that token (`Parser.reports_ordered`).  The
invariant says how far each of them has come: nothing is reported behind the position of the lexer, and no syntax error
behind the token that the parser looks at (`Parser.Ordered`).
-/

namespace Clite

inductive Origin where
  | lexical
  | syntactic
  deriving DecidableEq, Repr

/-- A diagnostic in the log, with the kind of its error. -/
structure Report where
  origin : Origin
  message : String
  place : Position
  deriving DecidableEq, Repr

namespace Report

def diagnostic (r : Report) : Diagnostic := ⟨r.message, some r.place⟩

/-- May the first report stand in front of the second?  Only a lexical error may do so from further on in the text, and
only in front of a syntax error. -/
def MayPrecede (r r' : Report) : Prop :=
  r.place.offset ≤ r'.place.offset ∨ r.origin = .lexical ∧ r'.origin = .syntactic

theorem MayPrecede.offset_le {r r' : Report} (h : r.MayPrecede r') (horigin : r.origin = r'.origin) :
    r.place.offset ≤ r'.place.offset := by
  rcases h with h | ⟨hr, hr'⟩
  · exact h
  · rw [hr, hr'] at horigin
    cases horigin

end Report

namespace Event

def report? : Event → Option Report
  | lexicalError e place => some ⟨.lexical, e.message, place⟩
  | syntaxError e => some ⟨.syntactic, e.message, e.position⟩
  | _ => none

theorem diagnostic?_eq (e : Event) : e.diagnostic? = e.report?.map Report.diagnostic := by
  cases e <;> rfl

end Event

/-- An error is reported inside of its piece or at its end. -/
theorem Piece.offset_of_error? {piece : Piece} {start place : Position} {error : LexicalError}
    (h : piece.error? start = some (error, place)) :
    start.offset ≤ place.offset ∧ place.offset ≤ (start.advanceAll piece.text).offset := by
  have hoffset := start.offset_advanceAll piece.text
  rcases place_of_error? h with rfl | rfl <;> omega

namespace Lexer

def reports (l : Lexer) : List Report := l.trace.toList.filterMap Event.report?

theorem Consistent.diagnostics_eq {l : Lexer} (h : l.Consistent) :
    l.reporter.diagnostics = l.reports.map Report.diagnostic := by
  rw [h.log, reports, List.map_filterMap]
  exact List.filterMap_congr fun e _ => e.diagnostic?_eq

theorem reports_behind (l : Lexer) (piece : Piece) :
    (l.behind piece).reports =
      l.reports ++ ((piece.error? l.position).map fun e => ⟨.lexical, e.1.message, e.2⟩).toList := by
  rw [reports, trace_behind, reports]
  cases piece.error? l.position <;> cases piece.token? <;> simp [Event.report?]

/-- The reports are in order, and the lexer has come at least as far as each of them. -/
structure Ordered (l : Lexer) : Prop where
  inOrder : l.reports.Pairwise Report.MayPrecede
  passed : ∀ r ∈ l.reports, r.place.offset ≤ l.position.offset

/-- What is reported at a piece stands further on than what was reported before. -/
theorem Ordered.behind {l : Lexer} (h : l.Ordered) (piece : Piece) : (l.behind piece).Ordered := by
  have hposition : l.position.offset ≤ (l.behind piece).position.offset := by
    rw [position_behind, Position.offset_advanceAll]
    omega
  have hpassed (r : Report) (hr : r ∈ l.reports) : r.place.offset ≤ (l.behind piece).position.offset :=
    Nat.le_trans (h.passed r hr) hposition
  have hreports := l.reports_behind piece
  cases herror : piece.error? l.position with
  | none =>
    simp only [herror, Option.map_none, Option.toList_none, List.append_nil] at hreports
    constructor
    · rw [hreports]
      exact h.inOrder
    · rw [hreports]
      exact hpassed
  | some e =>
    obtain ⟨hstart, hstop⟩ := Piece.offset_of_error? herror
    simp only [herror, Option.map_some, Option.toList_some] at hreports
    constructor
    · rw [hreports, List.pairwise_append]
      refine ⟨h.inOrder, List.pairwise_singleton _ _, fun r hr r' hr' => ?_⟩
      obtain rfl := List.mem_singleton.1 hr'
      exact .inl (Nat.le_trans (h.passed r hr) hstart)
    · rw [hreports]
      intro r hr
      rcases List.mem_append.1 hr with hr | hr
      · exact hpassed r hr
      · rw [List.mem_singleton.1 hr, position_behind]
        exact hstop

theorem Ordered.behindAll {l : Lexer} (h : l.Ordered) (pieces : List Piece) : (l.behindAll pieces).Ordered := by
  induction pieces generalizing l with
  | nil => exact h
  | cons piece pieces ih => exact ih (h.behind piece)

theorem Ordered.next {l : Lexer} (h : l.Ordered) : l.next.2.Ordered := by
  obtain ⟨passed, -, hn⟩ := l.next_passes
  have hpassed := h.behindAll passed
  rw [hn]
  exact ⟨hpassed.inOrder, hpassed.passed⟩

/-- Scanning adds no syntax error. -/
theorem mem_reports_behindAll {l : Lexer} {pieces : List Piece} {r : Report}
    (h : r ∈ (l.behindAll pieces).reports) (hr : r.origin = .syntactic) : r ∈ l.reports := by
  induction pieces generalizing l with
  | nil => exact h
  | cons piece pieces ih =>
    have hmem := ih h
    rw [reports_behind, List.mem_append] at hmem
    rcases hmem with hmem | hmem
    · exact hmem
    · simp only [Option.mem_toList, Option.map_eq_some_iff] at hmem
      obtain ⟨e, -, rfl⟩ := hmem
      cases hr

theorem mem_reports_next {l : Lexer} {r : Report} (h : r ∈ l.next.2.reports) (hr : r.origin = .syntactic) :
    r ∈ l.reports := by
  obtain ⟨passed, -, hn⟩ := l.next_passes
  rw [hn] at h
  exact mem_reports_behindAll h hr

end Lexer

namespace Parser

/-- The reports are in order, no syntax error is reported behind the current token, and the lexer is not in front of
that token. -/
structure Ordered (p : Parser) : Prop where
  lexer : p.lexer.Ordered
  syntactic : ∀ r ∈ p.lexer.reports, r.origin = .syntactic → r.place.offset ≤ p.current.position.offset
  current : p.current.position.offset ≤ p.lexer.position.offset

theorem ordered_ofSource (source : String) : (ofSource source).Ordered := by
  have hnone : (Lexer.ofSource source).reports = [] := rfl
  have hlexer : (Lexer.ofSource source).Ordered := ⟨by simp [hnone], by simp [hnone]⟩
  refine ⟨hlexer.next, fun r hr horigin => ?_, (Lexer.offset_next _).2⟩
  have hmem := Lexer.mem_reports_next hr horigin
  rw [hnone] at hmem
  cases hmem

theorem offset_current_advance {p : Parser} (h : p.Ordered) :
    p.current.position.offset ≤ p.advance.current.position.offset :=
  Nat.le_trans h.current p.lexer.offset_next.1

theorem Ordered.advance {p : Parser} (h : p.Ordered) : p.advance.Ordered where
  lexer := h.lexer.next
  syntactic r hr horigin :=
    Nat.le_trans (h.syntactic r (Lexer.mem_reports_next hr horigin) horigin) (offset_current_advance h)
  current := p.lexer.offset_next.2

theorem reports_report (p : Parser) (e : SyntaxError) :
    (p.report e).lexer.reports = p.lexer.reports ++ [⟨.syntactic, e.message, e.position⟩] := by
  simp [report, Lexer.reports, Event.report?]

/-- A syntax error may be reported in front of the current token, if no earlier one stands further on. -/
theorem Ordered.report {p : Parser} (h : p.Ordered) {e : SyntaxError}
    (hlast : ∀ r ∈ p.lexer.reports, r.origin = .syntactic → r.place.offset ≤ e.position.offset)
    (hcurrent : e.position.offset ≤ p.current.position.offset) : (p.report e).Ordered := by
  have hposition : (p.report e).lexer.position = p.lexer.position := rfl
  refine ⟨⟨?_, ?_⟩, ?_, h.current⟩
  · rw [reports_report, List.pairwise_append]
    refine ⟨h.lexer.inOrder, List.pairwise_singleton _ _, fun r hr r' hr' => ?_⟩
    obtain rfl := List.mem_singleton.1 hr'
    cases horigin : r.origin with
    | lexical => exact .inr ⟨horigin, rfl⟩
    | syntactic => exact .inl (hlast r hr horigin)
  · intro r hr
    rw [reports_report, List.mem_append, List.mem_singleton] at hr
    rw [hposition]
    rcases hr with hr | rfl
    · exact h.lexer.passed r hr
    · exact Nat.le_trans hcurrent h.current
  · intro r hr horigin
    rw [reports_report, List.mem_append, List.mem_singleton] at hr
    rcases hr with hr | rfl
    · exact h.syntactic r hr horigin
    · exact hcurrent

theorem reports_noteProgram (p : Parser) (ds ss : Nat) :
    (p.noteProgram ds ss).lexer.reports = p.lexer.reports := by
  simp [noteProgram, Lexer.emit, Lexer.reports, Event.report?]

theorem Ordered.noteProgram {p : Parser} (h : p.Ordered) (ds ss : Nat) : (p.noteProgram ds ss).Ordered := by
  have hreports := p.reports_noteProgram ds ss
  refine ⟨⟨?_, ?_⟩, ?_, h.current⟩
  · rw [hreports]
    exact h.lexer.inOrder
  · rw [hreports]
    exact h.lexer.passed
  · rw [hreports]
    exact h.syntactic

theorem Reaches.ordered {p q : Parser} (h : p.Reaches q) (hp : p.Ordered) : q.Ordered := by
  induction h with
  | refl => exact hp
  | advance _ ih => exact ih.advance
  | @report q e _ he ih =>
    refine ih.report (fun r hr horigin => ?_) (by rw [he])
    rw [he]
    exact ih.syntactic r hr horigin
  | @reject q e _ he ih =>
    -- the error is at the token that was current before, behind which no syntax error was reported
    refine ih.advance.report (fun r hr horigin => ?_) ?_
    · rw [he]
      exact ih.syntactic r (Lexer.mem_reports_next hr horigin) horigin
    · rw [he]
      exact offset_current_advance ih
  | noteProgram ds ss _ ih => exact ih.noteProgram ds ss

/-- The log of a session is made up of reports of both kinds.  Those of either kind are in the order of the text, and a
lexical error is logged in front of every syntax error that stands further on in the text. -/
theorem reports_ordered (source : String) (constructs : List Construct) :
    let p := ((ofSource source).readAll constructs).2
    let reports := p.lexer.reports
    p.diagnostics = reports.map Report.diagnostic ∧
    (reports.filter (·.origin = .syntactic)).Pairwise (fun r r' => r.place.offset ≤ r'.place.offset) ∧
    (reports.filter (·.origin = .lexical)).Pairwise (fun r r' => r.place.offset ≤ r'.place.offset) ∧
    ∀ i j (hi : i < reports.length) (hj : j < reports.length), reports[i].origin = .lexical →
      reports[j].origin = .syntactic → reports[i].place.offset < reports[j].place.offset → i < j := by
  intro p reports
  have hreaches : (ofSource source).Reaches p := reaches_readAll _ constructs
  have hconsistent := hreaches.consistent (consistent_ofSource source)
  have hordered := (hreaches.ordered (ordered_ofSource source)).lexer.inOrder
  have hkind (origin : Origin) :
      (reports.filter (·.origin = origin)).Pairwise fun r r' => r.place.offset ≤ r'.place.offset := by
    refine (hordered.filter _).imp_of_mem fun hr hr' h => h.offset_le ?_
    simp only [List.mem_filter, decide_eq_true_eq] at hr hr'
    rw [hr.2, hr'.2]
  refine ⟨hconsistent.lexer.diagnostics_eq, hkind _, hkind _, fun i j hi hj hlexical hsyntactic hlt => ?_⟩
  by_contra hle
  rcases Nat.lt_or_eq_of_le (Nat.le_of_not_lt hle) with hji | rfl
  · -- a syntax error is never in front of a lexical error from further back
    rcases List.pairwise_iff_getElem.1 hordered j i hj hi hji with h | ⟨h, -⟩
    · exact absurd hlt (Nat.not_lt_of_le h)
    · rw [h] at hsyntactic
      cases hsyntactic
  · omega

/-- A literal is read before it is found to have no value, and with it what follows: a lexical error from further on may
be logged in front of a syntax error. -/
theorem reports_ordered_invalid_literal :
    let p := ((ofSource "2147483648 # )").readAll [.expression, .statement]).2
    p.lexer.reports.map (fun r => (r.origin, r.place.offset)) = [(.lexical, 11), (.syntactic, 0), (.syntactic, 13)] ∧
    p.diagnostics = p.lexer.reports.map Report.diagnostic := by
  exact ⟨by decide +kernel, (reports_ordered "2147483648 # )" [.expression, .statement]).1⟩

end Parser

end Clite
