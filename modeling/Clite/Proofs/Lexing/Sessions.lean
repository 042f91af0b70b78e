import Clite.Proofs.Lexing.Shift

/-!
# Sessions on a lexer

A lexer is asked for tokens, one or all of them, it is turned to new texts, and others write errors into its log, in any
order (`Lexer.performAll`).  Which errors a step reports is told by the text that it passes and not by the log
(`Lexer.entries`), so the history of a session says what is to be found in the log, with the listener and in the count
(`Records.perform`).  A lexer that is turned to a new text goes on like a new one, and at the end of the text it stays
where it is.
-/

namespace Clite

/-- An error in a log, with who has reported it. -/
structure Entry where
  isLexical : Bool
  diagnostic : Diagnostic

/-- The errors reported since a text was opened, and ever. -/
structure History where
  sinceOpened : List Entry
  all : List Entry

namespace Lexer

/-- What can be asked of a lexer, or be done to its log. -/
inductive Step where
  | next
  | tokenize
  | reopen (source : String)
  /-- somebody else reports an error -/
  | external (error : Diagnostic)

/-- Does the step turn to a new text? -/
def Step.isReopen : Step → Bool
  | reopen _ => true
  | _ => false

/-- One step: the tokens handed out, and the lexer behind it. -/
def perform (l : Lexer) : Step → List Token × Lexer
  | .next => ([l.next.1], l.next.2)
  | .tokenize => l.tokenize
  | .reopen source => ([], l.reopen source)
  | .external error => ([], { l with reporter := l.reporter.report error })

/-- One step after the other: the tokens handed out in each of them, and the lexer behind the last. -/
def performAll (l : Lexer) : List Step → List (List Token) × Lexer
  | [] => ([], l)
  | step :: steps =>
    let (tokens, l) := l.perform step
    let (more, l) := l.performAll steps
    (tokens :: more, l)

/-- An error that is added to the log without a place is one that somebody else reports. -/
theorem perform_external (l : Lexer) (message : String) :
    (l.perform (.external ⟨message, none⟩)).2 = l.addError message := rfl

/-- The pieces between two points of a text. -/
def passed (l l' : Lexer) : List Piece := l.pieces.take (l.pieces.length - l'.pieces.length)

/-- The errors that a step reports: those of the text that is passed, or the one from outside. -/
def entries (l : Lexer) (step : Step) : List Entry :=
  match step with
  | .next | .tokenize =>
    (Piece.diagnosticsFrom l.position (l.passed (l.perform step).2)).map fun d => ⟨true, d⟩
  | .reopen _ => []
  | .external error => [⟨false, error⟩]

/-- The history behind a step. -/
def recorded (l : Lexer) (h : History) (step : Step) : History where
  sinceOpened := if step.isReopen then [] else h.sinceOpened ++ l.entries step
  all := h.all ++ l.entries step

/-- The history behind a session. -/
def historyOf (l : Lexer) (h : History) : List Step → History
  | [] => h
  | step :: steps => (l.perform step).2.historyOf (l.recorded h step) steps

/-! ### What a step reports -/

/-- The log, the count and the listener of a lexer have what the history says. -/
structure Records (h : History) (l : Lexer) : Prop where
  log : l.reporter.diagnostics = h.sinceOpened.map Entry.diagnostic
  counted : l.errorCount = h.sinceOpened.countP Entry.isLexical
  delivered : l.reporter.delivered.toList = h.all.map Entry.diagnostic

/-- Scanning reports the errors of the pieces that are passed, and those only. -/
theorem Records.scan {h : History} {l l' : Lexer} (hl : Records h l) {pieces : List Piece}
    (hpieces : l.pieces = pieces ++ l'.pieces) (hbehind : l' = (l.behindAll pieces).facing l'.pieces) :
    let entries := (Piece.diagnosticsFrom l.position (l.passed l')).map fun d => Entry.mk true d
    Records ⟨h.sinceOpened ++ entries, h.all ++ entries⟩ l' := by
  intro entries
  have hpassed : l.passed l' = pieces := by
    have hlength : l.pieces.length - l'.pieces.length = pieces.length := by
      rw [hpieces, List.length_append]
      omega
    rw [passed, hlength, hpieces, List.take_left]
  have hreporter : l'.reporter = (l.behindAll pieces).reporter := by rw [hbehind]; rfl
  have hcount : l'.errorCount = (l.behindAll pieces).errorCount := by rw [hbehind]; rfl
  have hentries : entries.map Entry.diagnostic = Piece.diagnosticsFrom l.position pieces := by
    simp [entries, hpassed, Function.comp_def]
  have hlexical : entries.countP Entry.isLexical = pieces.countP Piece.isFaulty := by
    rw [← Piece.length_diagnosticsFrom l.position, ← hentries, List.length_map, List.countP_eq_length]
    intro entry hentry
    obtain ⟨d, -, rfl⟩ := List.mem_map.1 hentry
    rfl
  rw [reporter_behindAll] at hreporter
  constructor
  · rw [hreporter, Reporter.diagnostics_foldl_report, hl.log, List.map_append, hentries]
  · rw [hcount, errorCount_behindAll, hl.counted, List.countP_append, hlexical]
  · rw [hreporter, Reporter.delivered_foldl_report, hl.delivered, List.map_append, hentries]

theorem Regular.pieces_tokenize {l : Lexer} (h : l.Regular) : l.tokenize.2.pieces = [] := by
  rw [h.tokenize_eq]
  rfl

/-- On the way to the last token all of the pieces are passed. -/
theorem Regular.tokenize_passes {l : Lexer} (h : l.Regular) :
    l.pieces = l.pieces ++ l.tokenize.2.pieces ∧
      l.tokenize.2 = (l.behindAll l.pieces).facing l.tokenize.2.pieces := by
  rw [h.pieces_tokenize, List.append_nil, h.tokenize_eq]
  exact ⟨rfl, rfl⟩

theorem Regular.perform {l : Lexer} (h : l.Regular) (step : Step) : (l.perform step).2.Regular := by
  cases step with
  | next => exact h.of_suffix l.pieces_next_suffix
  | tokenize =>
    refine h.of_suffix ?_
    show l.tokenize.2.pieces <:+ l.pieces
    rw [h.pieces_tokenize]
    exact List.nil_suffix
  | reopen source => exact regular_ofSource source
  | external error => exact h

/-- The history goes on as the lexer does. -/
theorem Records.perform {h : History} {l : Lexer} (hl : Records h l) (hreg : l.Regular) (step : Step) :
    Records (l.recorded h step) (l.perform step).2 := by
  cases step with
  | next =>
    obtain ⟨pieces, hpieces, hbehind⟩ := l.next_passes
    exact hl.scan hpieces hbehind
  | tokenize =>
    obtain ⟨hpieces, hbehind⟩ := hreg.tokenize_passes
    exact hl.scan hpieces hbehind
  | reopen source =>
    have hall : (l.recorded h (.reopen source)).all = h.all := List.append_nil _
    constructor
    · rfl
    · rfl
    · rw [hall]
      exact hl.delivered
  | external error =>
    constructor
    · simp [Lexer.perform, recorded, Step.isReopen, entries, hl.log]
    · simp [Lexer.perform, recorded, Step.isReopen, entries, hl.counted]
    · simp [Lexer.perform, recorded, entries, Reporter.report, hl.delivered]

theorem Regular.performAll {l : Lexer} (h : l.Regular) (steps : List Step) : (l.performAll steps).2.Regular := by
  induction steps generalizing l with
  | nil => exact h
  | cons step steps ih => exact ih (h.perform step)

theorem Records.performAll {h : History} {l : Lexer} (hl : Records h l) (hreg : l.Regular) (steps : List Step) :
    Records (l.historyOf h steps) (l.performAll steps).2 := by
  induction steps generalizing h l with
  | nil => exact hl
  | cons step steps ih => exact ih (hl.perform hreg step) (hreg.perform step)

/-! ### New texts -/

/-- Whatever a lexer has scanned before, on a new text it is where a new lexer is. -/
theorem shiftedBy_reopen (l : Lexer) (source : String) : (ofSource source).ShiftedBy 0 0 (l.reopen source) where
  pieces := rfl
  position := (Position.shift_zero _).symm
  errorCount := rfl
  diagnostics := rfl

/-- Lexers at the same place do the same in each step. -/
theorem ShiftedBy.perform {l l' : Lexer} (h : l.ShiftedBy 0 0 l') (step : Step) :
    (l'.perform step).1 = (l.perform step).1 ∧ (l.perform step).2.ShiftedBy 0 0 (l'.perform step).2 := by
  cases step with
  | next =>
    obtain ⟨htoken, hnext⟩ := h.next
    rw [Token.shift_zero] at htoken
    exact ⟨congrArg (fun t => [t]) htoken, hnext⟩
  | tokenize =>
    obtain ⟨htokens, hrest⟩ := h.tokenize
    refine ⟨htokens.trans ?_, hrest⟩
    simp only [Token.shift_zero, List.map_id']
    rfl
  | reopen source => exact ⟨rfl, rfl, (Position.shift_zero _).symm, rfl, rfl⟩
  | external error =>
    refine ⟨rfl, h.pieces, h.position, h.errorCount, ?_⟩
    simp [Lexer.perform, h.diagnostics]

theorem ShiftedBy.performAll {l l' : Lexer} (h : l.ShiftedBy 0 0 l') (steps : List Step) :
    (l'.performAll steps).1 = (l.performAll steps).1 ∧
      (l.performAll steps).2.ShiftedBy 0 0 (l'.performAll steps).2 := by
  induction steps generalizing l l' with
  | nil => exact ⟨rfl, h⟩
  | cons step steps ih =>
    obtain ⟨htokens, hstep⟩ := h.perform step
    obtain ⟨hmore, hall⟩ := ih hstep
    exact ⟨congrArg₂ List.cons htokens hmore, hall⟩

/-! ### The end of the text -/

/-- Nothing is left to be scanned, and `token` is the end of the file there. -/
structure AtEnd (l : Lexer) (token : Token) : Prop where
  pieces : l.pieces = []
  token : token = .endOfFile l.position

/-- At the end of its text a lexer hands out the end of the file and stays as it is. -/
theorem AtEnd.next {l : Lexer} {token : Token} (h : l.AtEnd token) : l.next = (token, l) := by
  have hfacing : l.facing [] = l := by
    rw [← h.pieces]
    rfl
  calc l.next = (.endOfFile l.position, l.facing []) := by rw [Lexer.next, h.pieces]; rfl
    _ = (token, l) := by rw [hfacing, h.token]

/-- A call that has handed out the end of the file has come to the end. -/
theorem Regular.atEnd_perform {l : Lexer} (h : l.Regular) {step : Step} {token : Token}
    (htoken : (l.perform step).1.getLast? = some token) (hkind : token.kind = .endOfFile) :
    (l.perform step).2.AtEnd token := by
  cases step with
  | next =>
    obtain rfl : l.next.1 = token := by simpa [Lexer.perform] using htoken
    refine ⟨h.pieces_of_endOfFile hkind, ?_⟩
    rcases l.next_cases with ⟨-, hn⟩ | ⟨gaps, piece, rest, kind, lexeme, hp, -, ht, hn⟩
    · show l.next.1 = .endOfFile l.next.2.position
      rw [hn]
      rfl
    · -- a piece of a text never stands for the end of the file
      rw [hn] at hkind
      exact absurd hkind (h piece (by simp [hp]) kind lexeme ht)
  | tokenize =>
    refine ⟨h.pieces_tokenize, ?_⟩
    simp only [Lexer.perform] at htoken ⊢
    rw [h.tokenize_eq] at htoken ⊢
    simpa using htoken.symm
  | reopen source => cases htoken
  | external error => cases htoken

theorem AtEnd.perform {l : Lexer} {token : Token} (h : l.AtEnd token) {step : Step} (hstep : step.isReopen = false) :
    (l.perform step).2.AtEnd token := by
  cases step with
  | next =>
    show l.next.2.AtEnd token
    rw [h.next]
    exact h
  | tokenize =>
    have hkind : l.next.1.kind = .endOfFile := by
      rw [h.next, h.token]
      rfl
    show l.tokenize.2.AtEnd token
    rw [tokenize_next, if_pos hkind, h.next]
    exact h
  | reopen source => cases hstep
  | external error => exact ⟨h.pieces, h.token⟩

theorem AtEnd.performAll {l : Lexer} {token : Token} (h : l.AtEnd token) {steps : List Step}
    (hsteps : ∀ step ∈ steps, step.isReopen = false) : (l.performAll steps).2.AtEnd token := by
  induction steps generalizing l with
  | nil => exact h
  | cons step steps ih =>
    rw [List.forall_mem_cons] at hsteps
    exact ih (h.perform hsteps.1) hsteps.2

/-! ### The whole session -/

/-- Behind every session on a lexer the log has the errors reported since the latest text was opened, the count says how
many of them are lexical, and the listener has received all that were ever reported.  If the lexer is turned to a text,
it hands out in all later steps what a new lexer on that text does, and is where that one is, with the same count and
log.  A call that hands out the end of the file has come to the end: until another text is opened, that token comes again
and nothing changes. -/
theorem sessions_account (source : String) (steps : List Step) :
    let l := ((ofSource source).performAll steps).2
    let history := (ofSource source).historyOf ⟨[], []⟩ steps
    (l.reporter.diagnostics = history.sinceOpened.map Entry.diagnostic ∧
      l.errorCount = history.sinceOpened.countP Entry.isLexical ∧
      l.reporter.delivered.toList = history.all.map Entry.diagnostic) ∧
    (∀ text later,
      let reopened := (l.perform (.reopen text)).2.performAll later
      let fresh := (ofSource text).performAll later
      reopened.1 = fresh.1 ∧ reopened.2.position = fresh.2.position ∧ reopened.2.pieces = fresh.2.pieces ∧
        reopened.2.errorCount = fresh.2.errorCount ∧
        reopened.2.reporter.diagnostics = fresh.2.reporter.diagnostics) ∧
    ∀ step token, (l.perform step).1.getLast? = some token → token.kind = .endOfFile →
      ∀ later, (∀ s ∈ later, s.isReopen = false) →
        let stopped := ((l.perform step).2.performAll later).2
        stopped.next = (token, stopped) := by
  intro l history
  have hreg : l.Regular := (regular_ofSource source).performAll steps
  have hrecords : Records history l := Records.performAll ⟨rfl, rfl, rfl⟩ (regular_ofSource source) steps
  refine ⟨⟨hrecords.log, hrecords.counted, hrecords.delivered⟩, ?_, ?_⟩
  · intro text later reopened fresh
    obtain ⟨htokens, hsame⟩ := (shiftedBy_reopen l text).performAll later
    have hposition := hsame.position
    have hlog := hsame.diagnostics
    simp only [Position.shift_zero, Diagnostic.shift_zero, List.map_id'] at hposition hlog
    exact ⟨htokens, hposition, hsame.pieces, hsame.errorCount, hlog⟩
  · intro step token htoken hkind later hlater
    exact ((hreg.atEnd_perform htoken hkind).performAll hlater).next

/-- A lexer that has reported an error of its own, and one from outside, before it was turned to a faulty character: the
end of the file, once found, stays there, also behind another error from outside. -/
theorem sessions_account_faulty_texts :
    let l := ((ofSource "# x").performAll [.next, .external ⟨"from outside", none⟩, .reopen "'"]).2
    let token := Token.endOfFile ⟨1, 1, 2⟩
    let stopped := ((l.perform .next).2.performAll [.external ⟨"late", none⟩, .tokenize]).2
    (l.perform .next).1.getLast? = some token ∧ token.kind = .endOfFile ∧ stopped.next = (token, stopped) := by
  intro l token stopped
  have htoken : (l.perform .next).1.getLast? = some token := by decide +kernel
  have hlater : ∀ s ∈ [Step.external ⟨"late", none⟩, .tokenize], s.isReopen = false := by decide
  obtain ⟨-, -, hstops⟩ :=
    sessions_account "# x" [.next, .external ⟨"from outside", none⟩, .reopen "'"]
  exact ⟨htoken, rfl, hstops .next token htoken rfl _ hlater⟩

end Lexer

end Clite
