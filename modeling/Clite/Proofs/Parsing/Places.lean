import Clite.Proofs.Lexing.Places
import Clite.Proofs.Parsing.Reports

/-!
# Places of tokens and errors

A parser speaks of the tokens that it has looked at, so all that it reports has a place in the source text
(`Parser.Reaches.placedIn`).  Together with what is true of the lexer, every position that is ever handed out or reported
has the line and the column of the place that its offset names (`Parser.positions_lie_in_source`).
-/

namespace Clite.Parser

variable {s : List Char} {p q : Parser} {l : Lexer}

/-- The lexer of the parser is on its way through the text, and the current token is the last that it has handed out. -/
structure PlacedIn (p : Parser) (s : List Char) : Prop where
  lexer : p.lexer.PlacedIn s
  current : p.current.position ∈ Position.start.along s
  inFront : p.current.kind ≠ .endOfFile → p.current.position.offset < p.lexer.position.offset
  atEnd : p.current.kind = .endOfFile → p.current.position.offset = s.length

theorem placedIn_of_passes (h : Lexer.Passes s l [p.current] p.lexer) : p.PlacedIn s :=
  have hmem : p.current ∈ [p.current] := List.mem_singleton_self _
  ⟨h.placed, h.along _ hmem, h.inFront _ hmem, h.atEnd _ hmem⟩

theorem placedIn_ofLexer (h : l.PlacedIn s) : (ofLexer l).PlacedIn s := placedIn_of_passes h.passes_next

theorem PlacedIn.advance (h : p.PlacedIn s) : p.advance.PlacedIn s := placedIn_of_passes h.lexer.passes_next

/-- The next token stands behind the current one, up to the end of the file. -/
theorem PlacedIn.offset_advance (h : p.PlacedIn s) (hkind : p.current.kind ≠ .endOfFile) :
    p.current.position.offset < p.advance.current.position.offset := by
  have hnext := h.lexer.passes_next.behind _ (List.mem_singleton_self _)
  exact Nat.lt_of_lt_of_le (h.inFront hkind) hnext

theorem PlacedIn.report (h : p.PlacedIn s) {e : SyntaxError} (he : e.position ∈ Position.start.along s) :
    (p.report e).PlacedIn s := by
  refine ⟨⟨h.lexer.text, h.lexer.fits, ?_⟩, h.current, h.inFront, h.atEnd⟩
  intro d hd
  have hlog : (p.report e).lexer.reporter.diagnostics = p.diagnostics ++ [⟨e.message, some e.position⟩] :=
    Reporter.diagnostics_report _ _
  rw [hlog, List.mem_append, List.mem_singleton] at hd
  rcases hd with hd | rfl
  · exact h.lexer.reported d hd
  · exact ⟨e.position, he, rfl⟩

theorem PlacedIn.noteProgram (h : p.PlacedIn s) (ds ss : Nat) : (p.noteProgram ds ss).PlacedIn s :=
  ⟨⟨h.lexer.text, h.lexer.fits, h.lexer.reported⟩, h.current, h.inFront, h.atEnd⟩

theorem Reaches.placedIn (h : p.Reaches q) (hp : p.PlacedIn s) : q.PlacedIn s := by
  induction h with
  | refl => exact hp
  | advance _ ih => exact ih.advance
  | report _ he ih =>
    refine ih.report ?_
    rw [he]
    exact ih.current
  | reject _ he ih =>
    -- the error is at the token that was current before
    refine ih.advance.report ?_
    rw [he]
    exact ih.current
  | noteProgram ds ss _ ih => exact ih.noteProgram ds ss

/-- In a text whose characters can be counted in 32 bits no line and no column overflows on the way.  Whatever a lexer has
done before, all tokens of the text that it hands out and all errors that it and a parser report have an offset in the
text and the line and the column of that place.  Tokens stand further and further on, up to the end of the file, which is
behind all characters. -/
theorem positions_lie_in_source (l : Lexer) (source : String) (steps : List Lexer.Step)
    (hlength : source.length < UInt32.size - 1) (hsteps : ∀ step ∈ steps, step.scans) :
    let session := (l.reopen source).performAll steps
    let tokens := session.1.flatten
    (∀ place ∈ Position.start.along source.toList, place.LiesIn source.toList) ∧
    (∀ t ∈ tokens, t.position.LiesIn source.toList) ∧
    tokens.Pairwise (fun t t' => t.kind ≠ .endOfFile → t.position.offset < t'.position.offset) ∧
    (∀ t ∈ tokens, t.kind = .endOfFile → t.position.offset = source.length) ∧
    (∀ d ∈ session.2.reporter.diagnostics, ∃ place, d.position = some place ∧ place.LiesIn source.toList) ∧
    ∀ p, (ofLexer session.2).Reaches p →
      p.current.position.LiesIn source.toList ∧
      (p.current.kind ≠ .endOfFile → p.current.position.offset < p.advance.current.position.offset) ∧
      (p.current.kind = .endOfFile → p.current.position.offset = source.length) ∧
      ∀ d ∈ p.diagnostics, ∃ place, d.position = some place ∧ place.LiesIn source.toList := by
  intro session tokens
  rw [← String.length_toList] at hlength ⊢
  have hpasses : Lexer.Passes source.toList (l.reopen source) tokens session.2 :=
    (l.placedIn_reopen source).passes_performAll hsteps
  have hplaces (place : Position) (halong : place ∈ Position.start.along source.toList) :
      place.LiesIn source.toList := Position.liesIn_of_mem_along halong hlength
  have hreported {d : Diagnostic} (hd : d.PlacedIn source.toList) :
      ∃ place, d.position = some place ∧ place.LiesIn source.toList := by
    obtain ⟨place, halong, hplace⟩ := hd
    exact ⟨place, hplace, hplaces place halong⟩
  refine ⟨hplaces, fun t ht => hplaces _ (hpasses.along t ht), hpasses.ascending, hpasses.atEnd,
    fun d hd => hreported (hpasses.placed.reported d hd), fun p hp => ?_⟩
  have hplaced : p.PlacedIn source.toList := hp.placedIn (placedIn_ofLexer hpasses.placed)
  exact ⟨hplaces _ hplaced.current, hplaced.offset_advance, hplaced.atEnd,
    fun d hd => hreported (hplaced.lexer.reported d hd)⟩

/-- A newline in a literal opens a line as well, also for the errors behind it. -/
theorem positions_lie_in_source_newline_literal :
    let source := "x # '\n'\n= 'y"
    let steps : List Lexer.Step := [.next, .next]
    let session := ((Lexer.ofSource "&").reopen source).performAll steps
    let p := ((ofLexer session.2).readAll [.statement]).2
    source.length < UInt32.size - 1 ∧ (∀ step ∈ steps, step.scans) ∧
      ∀ d ∈ p.diagnostics, ∃ place, d.position = some place ∧ place.LiesIn source.toList := by
  intro source steps session p
  have hlength : source.length < UInt32.size - 1 := by decide +kernel
  have hsteps : ∀ step ∈ steps, step.scans := by decide
  obtain ⟨-, -, -, -, -, hparser⟩ := positions_lie_in_source (Lexer.ofSource "&") source steps hlength hsteps
  exact ⟨hlength, hsteps, (hparser p (reaches_readAll _ _)).2.2.2⟩

end Clite.Parser
