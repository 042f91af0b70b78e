import Mathlib.Data.List.Basic
import Clite.Proofs.Lexing.Tokens

/-!
# What is reported while a text is scanned

Every error goes into the log, to the listener and into the trace, so the trace tells which diagnostics are lexical
and which are not.  The lexical ones come from the pieces: those of the pieces that a lexer has passed are in its
log, and those of the others are still to come (`lexicalDiagnostics_next`).  All that a lexer notes on its way comes from
the pieces (`trace_next`).
-/

namespace Clite

namespace Event

/-- The diagnostic of a lexical error. -/
def lexical? : Event → Option Diagnostic
  | lexicalError e place => some ⟨e.message, some place⟩
  | _ => none

/-- The diagnostic of a syntax error. -/
def syntactic? : Event → Option Diagnostic
  | syntaxError e => some ⟨e.message, some e.position⟩
  | _ => none

def diagnostic? (e : Event) : Option Diagnostic := e.lexical?.or e.syntactic?

end Event

namespace Reporter

theorem diagnostics_foldl_report (r : Reporter) (ds : List Diagnostic) :
    (ds.foldl report r).diagnostics = r.diagnostics ++ ds := by
  induction ds generalizing r with
  | nil => exact (List.append_nil _).symm
  | cons d ds ih => rw [List.foldl_cons, ih, diagnostics_report, List.append_assoc, List.singleton_append]

theorem delivered_foldl_report (r : Reporter) (ds : List Diagnostic) :
    (ds.foldl report r).delivered.toList = r.delivered.toList ++ ds := by
  induction ds generalizing r with
  | nil => exact (List.append_nil _).symm
  | cons d ds ih =>
    rw [List.foldl_cons, ih, report, Log.toList_push, List.append_assoc, List.singleton_append]

end Reporter

namespace Piece

/-- The diagnostics of a run of pieces, when the first piece begins at `start`. -/
def diagnosticsFrom (start : Position) : List Piece → List Diagnostic
  | [] => []
  | piece :: rest =>
    ((piece.error? start).map fun e => ⟨e.1.message, some e.2⟩).toList ++
      diagnosticsFrom (start.advanceAll piece.text) rest

theorem diagnosticsFrom_append (start : Position) (pieces others : List Piece) :
    diagnosticsFrom start (pieces ++ others) =
      diagnosticsFrom start pieces ++ diagnosticsFrom (start.advanceAll (pieces.flatMap text)) others := by
  induction pieces generalizing start with
  | nil => rfl
  | cons piece pieces ih =>
    rw [List.cons_append, diagnosticsFrom, diagnosticsFrom, ih, List.flatMap_cons, Position.advanceAll_append,
      List.append_assoc]

theorem length_diagnosticsFrom (start : Position) (pieces : List Piece) :
    (diagnosticsFrom start pieces).length = pieces.countP isFaulty := by
  induction pieces generalizing start with
  | nil => rfl
  | cons piece pieces ih =>
    rw [diagnosticsFrom, List.length_append, ih, List.countP_cons, ← isSome_error? start]
    cases piece.error? start <;> simp [Nat.add_comm]

/-- What is wrong with a piece is wrong at its beginning or at its end. -/
theorem place_of_error? {piece : Piece} {start place : Position} {error : LexicalError}
    (h : piece.error? start = some (error, place)) : place = start ∨ place = start.advanceAll piece.text := by
  unfold error? at h
  split at h <;> cases h
  · exact .inl rfl
  · exact .inr rfl

theorem error?_eq_none {piece : Piece} (h : piece.isFaulty = false) (start : Position) :
    piece.error? start = none := by
  rw [← isSome_error? start] at h
  simpa using h

theorem diagnosticsFrom_eq_nil {pieces : List Piece} (h : ∀ piece ∈ pieces, piece.isFaulty = false)
    (start : Position) : diagnosticsFrom start pieces = [] := by
  induction pieces generalizing start with
  | nil => rfl
  | cons piece pieces ih =>
    rw [List.forall_mem_cons] at h
    rw [diagnosticsFrom, error?_eq_none h.1, ih h.2]
    rfl

/-- What happens on the way through a run of pieces, when the first piece begins at `start`: the error of a piece is
reported before its token is handed out. -/
def eventsFrom (start : Position) : List Piece → List Event
  | [] => []
  | piece :: rest =>
    ((piece.error? start).map fun e => Event.lexicalError e.1 e.2).toList ++
      (piece.token?.map fun t => Event.scanned ⟨start, t.1, t.2⟩).toList ++
        eventsFrom (start.advanceAll piece.text) rest

theorem eventsFrom_append (start : Position) (pieces others : List Piece) :
    eventsFrom start (pieces ++ others) =
      eventsFrom start pieces ++ eventsFrom (start.advanceAll (pieces.flatMap text)) others := by
  induction pieces generalizing start with
  | nil => rfl
  | cons piece pieces ih =>
    rw [List.cons_append, eventsFrom, eventsFrom, ih, List.flatMap_cons, Position.advanceAll_append]
    simp only [List.append_assoc]

theorem filterMap_lexical?_eventsFrom (start : Position) (pieces : List Piece) :
    (eventsFrom start pieces).filterMap Event.lexical? = diagnosticsFrom start pieces := by
  induction pieces generalizing start with
  | nil => rfl
  | cons piece pieces ih =>
    rw [eventsFrom, diagnosticsFrom, List.filterMap_append, ih]
    cases piece.error? start <;> cases piece.token? <;> simp [Event.lexical?]

/-- Nothing else happens on the way. -/
theorem filterMap_eventsFrom_eq_nil {α : Type} {f : Event → Option α}
    (hlexical : ∀ e place, f (.lexicalError e place) = none) (hscanned : ∀ t, f (.scanned t) = none)
    (start : Position) (pieces : List Piece) : (eventsFrom start pieces).filterMap f = [] := by
  induction pieces generalizing start with
  | nil => rfl
  | cons piece pieces ih =>
    rw [eventsFrom, List.filterMap_append, ih]
    cases piece.error? start <;> cases piece.token? <;> simp [hlexical, hscanned]

end Piece

namespace Lexer

def lexicalDiagnostics (l : Lexer) : List Diagnostic := l.trace.toList.filterMap Event.lexical?

def syntaxDiagnostics (l : Lexer) : List Diagnostic := l.trace.toList.filterMap Event.syntactic?

/-- The log, the listener and the trace of a lexer have the same errors in the same order, and the lexical ones among
them are counted. -/
structure Consistent (l : Lexer) : Prop where
  log : l.reporter.diagnostics = l.trace.toList.filterMap Event.diagnostic?
  delivered : l.reporter.delivered.toList = l.reporter.diagnostics
  counted : l.errorCount = l.lexicalDiagnostics.length

theorem consistent_ofSource (source : String) : (ofSource source).Consistent := ⟨rfl, rfl, rfl⟩

/-- Each diagnostic is a lexical one or a syntactic one. -/
theorem Consistent.length_diagnostics {l : Lexer} (h : l.Consistent) :
    l.reporter.diagnostics.length = l.lexicalDiagnostics.length + l.syntaxDiagnostics.length := by
  rw [h.log, lexicalDiagnostics, syntaxDiagnostics]
  induction l.trace.toList with
  | nil => rfl
  | cons e es ih =>
    rw [List.filterMap_cons, List.filterMap_cons, List.filterMap_cons]
    cases e with
    | lexicalError | syntaxError =>
      simp only [Event.diagnostic?, Event.lexical?, Event.syntactic?, Option.or, List.length_cons]
      omega
    | _ => exact ih

/-- Without syntax errors the log has the lexical ones only. -/
theorem Consistent.diagnostics_of_lexical {l : Lexer} (h : l.Consistent) (hnone : l.syntaxDiagnostics = []) :
    l.reporter.diagnostics = l.lexicalDiagnostics := by
  rw [h.log, lexicalDiagnostics]
  refine List.filterMap_congr fun e he => ?_
  rw [Event.diagnostic?, List.filterMap_eq_nil_iff.1 hnone e he, Option.or_none]

theorem Consistent.emit {l : Lexer} (h : l.Consistent) {e : Event} (he : e.diagnostic? = none) :
    (l.emit e).Consistent := by
  have hlexical : e.lexical? = none := (Option.or_eq_none_iff.1 he).1
  constructor
  · rw [Lexer.emit, Log.toList_push, List.filterMap_append, ← h.log]
    simp [he]
  · exact h.delivered
  · simp [lexicalDiagnostics, Lexer.emit, hlexical, h.counted]

/-! ### Behind pieces -/

/-- What happens at a piece: its error is reported before its token is handed out. -/
theorem trace_behind (l : Lexer) (piece : Piece) :
    (l.behind piece).trace.toList =
      l.trace.toList ++ ((piece.error? l.position).map fun e => Event.lexicalError e.1 e.2).toList ++
        (piece.token?.map fun t => Event.scanned ⟨l.position, t.1, t.2⟩).toList := by
  unfold behind pass
  cases piece.token? <;> cases piece.error? l.position <;> simp [emit, report]

theorem reporter_behind (l : Lexer) (piece : Piece) :
    (l.behind piece).reporter =
      match piece.error? l.position with
      | none => l.reporter
      | some (error, place) => l.reporter.error error.message (some place) := by
  unfold behind pass
  cases piece.token? <;> cases piece.error? l.position <;> rfl

theorem trace_behindAll (l : Lexer) (pieces : List Piece) :
    (l.behindAll pieces).trace.toList = l.trace.toList ++ Piece.eventsFrom l.position pieces := by
  induction pieces generalizing l with
  | nil => exact (List.append_nil _).symm
  | cons piece pieces ih =>
    rw [behindAll_cons, ih, trace_behind, position_behind, Piece.eventsFrom]
    simp only [List.append_assoc]

theorem lexicalDiagnostics_behindAll (l : Lexer) (pieces : List Piece) :
    (l.behindAll pieces).lexicalDiagnostics = l.lexicalDiagnostics ++ Piece.diagnosticsFrom l.position pieces := by
  rw [lexicalDiagnostics, trace_behindAll, List.filterMap_append, Piece.filterMap_lexical?_eventsFrom]
  rfl

theorem syntaxDiagnostics_behindAll (l : Lexer) (pieces : List Piece) :
    (l.behindAll pieces).syntaxDiagnostics = l.syntaxDiagnostics := by
  have hnone := Piece.filterMap_eventsFrom_eq_nil (f := Event.syntactic?) (fun _ _ => rfl) (fun _ => rfl)
  rw [syntaxDiagnostics, trace_behindAll, List.filterMap_append, hnone, List.append_nil]
  rfl

theorem Consistent.behind {l : Lexer} (h : l.Consistent) (piece : Piece) : (l.behind piece).Consistent := by
  have hfaulty := piece.isSome_error? l.position
  constructor
  · rw [trace_behind, reporter_behind, List.filterMap_append, List.filterMap_append, ← h.log]
    cases piece.error? l.position <;> cases piece.token? <;>
      simp [Event.diagnostic?, Event.lexical?, Event.syntactic?, Reporter.error]
  · rw [reporter_behind]
    cases piece.error? l.position with
    | none => exact h.delivered
    | some e => simp [Reporter.error, Reporter.report, Reporter.diagnostics, h.delivered]
  · have hlexical := l.lexicalDiagnostics_behindAll [piece]
    rw [behindAll_cons, behindAll_nil, Piece.diagnosticsFrom] at hlexical
    rw [errorCount_behind, hlexical, ← hfaulty, h.counted]
    cases piece.error? l.position <;> simp [Piece.diagnosticsFrom]

/-- The errors of the pieces are reported one after the other. -/
theorem reporter_behindAll (l : Lexer) (pieces : List Piece) :
    (l.behindAll pieces).reporter = (Piece.diagnosticsFrom l.position pieces).foldl Reporter.report l.reporter := by
  induction pieces generalizing l with
  | nil => rfl
  | cons piece pieces ih =>
    rw [behindAll_cons, ih, position_behind, reporter_behind, Piece.diagnosticsFrom, List.foldl_append]
    cases piece.error? l.position <;> rfl

theorem Consistent.behindAll {l : Lexer} (h : l.Consistent) (pieces : List Piece) :
    (l.behindAll pieces).Consistent := by
  induction pieces generalizing l with
  | nil => exact h
  | cons piece pieces ih => exact ih (h.behind piece)

/-! ### Behind a token -/

/-- On the way to a token some of the pieces are passed, and the others are left. -/
theorem next_passes (l : Lexer) :
    ∃ passed, l.pieces = passed ++ l.next.2.pieces ∧ l.next.2 = (l.behindAll passed).facing l.next.2.pieces := by
  rcases l.next_cases with ⟨-, hn⟩ | ⟨gaps, piece, rest, kind, lexeme, hp, -, -, hn⟩
  · exact ⟨l.pieces, by simp [hn], by rw [hn]; rfl⟩
  · refine ⟨gaps ++ [piece], by simp [hn, hp], ?_⟩
    rw [hn, behindAll_append]
    rfl

/-- What has been noted and what is still to come stay the same. -/
theorem trace_next (l : Lexer) :
    l.next.2.trace.toList ++ Piece.eventsFrom l.next.2.position l.next.2.pieces =
      l.trace.toList ++ Piece.eventsFrom l.position l.pieces := by
  obtain ⟨passed, hp, hn⟩ := l.next_passes
  have htrace : l.next.2.trace = (l.behindAll passed).trace := by rw [hn]; rfl
  have hposition : l.next.2.position = (l.behindAll passed).position := by rw [hn]; rfl
  rw [htrace, hposition, trace_behindAll, position_behindAll, List.append_assoc, ← Piece.eventsFrom_append, ← hp]

/-- The lexical errors logged and those still to come stay the same. -/
theorem lexicalDiagnostics_next (l : Lexer) :
    l.next.2.lexicalDiagnostics ++ Piece.diagnosticsFrom l.next.2.position l.next.2.pieces =
      l.lexicalDiagnostics ++ Piece.diagnosticsFrom l.position l.pieces := by
  have htrace := congrArg (List.filterMap Event.lexical?) l.trace_next
  rw [List.filterMap_append, List.filterMap_append, Piece.filterMap_lexical?_eventsFrom,
    Piece.filterMap_lexical?_eventsFrom] at htrace
  exact htrace

theorem syntaxDiagnostics_next (l : Lexer) : l.next.2.syntaxDiagnostics = l.syntaxDiagnostics := by
  obtain ⟨passed, -, hn⟩ := l.next_passes
  rw [hn]
  exact l.syntaxDiagnostics_behindAll passed

theorem Consistent.next {l : Lexer} (h : l.Consistent) : l.next.2.Consistent := by
  obtain ⟨passed, -, hn⟩ := l.next_passes
  have hpassed := h.behindAll passed
  rw [hn]
  exact ⟨hpassed.log, hpassed.delivered, hpassed.counted⟩

/-! ### A whole text -/

/-- The tokens of a text come from its pieces, and the end of the file is behind its last character. -/
theorem tokens_tokenize (source : String) :
    (ofSource source).tokenize.1 =
      Piece.tokensFrom .start (Piece.split source.toList) ++ [.endOfFile (Position.start.advanceAll source.toList)] := by
  have hstart : (ofSource source).position = .start := rfl
  have hpieces : (ofSource source).pieces = Piece.split source.toList := rfl
  rw [(regular_ofSource source).tokenize_eq, position_behindAll, hpieces, hstart, Piece.flatMap_text_split]

theorem tokens_ofSource (source : String) :
    ∃ stop, (ofSource source).tokenize.1 =
      Piece.tokensFrom .start (Piece.split source.toList) ++ [.endOfFile stop] := ⟨_, tokens_tokenize source⟩

/-- The errors of all pieces of a text are logged when its tokens are found. -/
theorem lexicalDiagnostics_tokenize (source : String) :
    (ofSource source).tokenize.2.lexicalDiagnostics = Piece.diagnosticsFrom .start (Piece.split source.toList) := by
  rw [(regular_ofSource source).tokenize_eq]
  exact (ofSource source).lexicalDiagnostics_behindAll _

theorem consistent_tokenize (source : String) : (ofSource source).tokenize.2.Consistent := by
  have h := (consistent_ofSource source).behindAll (ofSource source).pieces
  rw [(regular_ofSource source).tokenize_eq]
  exact ⟨h.log, h.delivered, h.counted⟩

/-- What is logged while a text is scanned are lexical errors. -/
theorem diagnostics_tokenize (source : String) :
    (ofSource source).tokenize.2.reporter.diagnostics = (ofSource source).tokenize.2.lexicalDiagnostics := by
  have hnone : (ofSource source).tokenize.2.syntaxDiagnostics = [] := by
    rw [(regular_ofSource source).tokenize_eq]
    exact (ofSource source).syntaxDiagnostics_behindAll _
  exact (consistent_tokenize source).diagnostics_of_lexical hnone

theorem diagnostics_tokenize_eq (source : String) :
    (ofSource source).tokenize.2.reporter.diagnostics =
      Piece.diagnosticsFrom .start (Piece.split source.toList) := by
  rw [diagnostics_tokenize, lexicalDiagnostics_tokenize]

/-- Nothing is reported in a text without pieces at fault. -/
theorem tokenize_of_clean {source : String}
    (h : ∀ piece ∈ Piece.split source.toList, piece.isFaulty = false) :
    (ofSource source).tokenize.2.errorCount = 0 ∧ (ofSource source).tokenize.2.reporter.diagnostics = [] := by
  have hnil : (ofSource source).tokenize.2.lexicalDiagnostics = [] := by
    rw [lexicalDiagnostics_tokenize, Piece.diagnosticsFrom_eq_nil h]
  rw [(consistent_tokenize source).counted, diagnostics_tokenize, hnil]
  exact ⟨rfl, rfl⟩

end Lexer

end Clite
