import Clite.Proofs.Lexing.Lines

/-!
# Lexers at different places in their texts

A lexer never looks back: what it hands out and what it reports hangs on the pieces before it, and the place that it
has come to only moves their positions.  So of two lexers with the same pieces before them, one of them so many
characters and lines further on than the other (`Lexer.ShiftedBy`), both hand out the same tokens and report the same
errors, as many characters and lines apart (`ShiftedBy.next`).
-/

namespace Clite

@[simp] theorem Position.shift_zero (p : Position) : p.shift 0 0 = p := by
  simp [shift]

@[simp] theorem Token.shift_zero (t : Token) : t.shift 0 0 = t := by
  simp [shift]

@[simp] theorem Diagnostic.shift_zero (d : Diagnostic) : d.shift 0 0 = d := by
  simp [shift]

namespace Lexer

/-- The second lexer has the same pieces before it and the same errors behind it as the first, all of them so many
characters and lines further on. -/
structure ShiftedBy (characters lines : Nat) (l l' : Lexer) : Prop where
  pieces : l'.pieces = l.pieces
  position : l'.position = l.position.shift characters lines
  errorCount : l'.errorCount = l.errorCount
  diagnostics : l'.reporter.diagnostics = l.reporter.diagnostics.map fun d => d.shift characters lines

theorem diagnostics_behind (l : Lexer) (piece : Piece) :
    (l.behind piece).reporter.diagnostics =
      l.reporter.diagnostics ++ Piece.diagnosticsFrom l.position [piece] := by
  have hreporter := l.reporter_behindAll [piece]
  rw [behindAll_cons, behindAll_nil] at hreporter
  rw [hreporter, Reporter.diagnostics_foldl_report]

variable {n k : Nat} {l l' : Lexer}

theorem ShiftedBy.behind (h : l.ShiftedBy n k l') (piece : Piece) :
    (l.behind piece).ShiftedBy n k (l'.behind piece) where
  pieces := by rw [pieces_behind, pieces_behind, h.pieces]
  position := by rw [position_behind, position_behind, h.position, Position.advanceAll_shift]
  errorCount := by rw [errorCount_behind, errorCount_behind, h.errorCount]
  diagnostics := by
    rw [diagnostics_behind, diagnostics_behind, h.position, h.diagnostics, Piece.diagnosticsFrom_shift,
      List.map_append]

theorem ShiftedBy.facing (h : l.ShiftedBy n k l') (pieces : List Piece) :
    (l.facing pieces).ShiftedBy n k (l'.facing pieces) := ⟨rfl, h.position, h.errorCount, h.diagnostics⟩

private theorem ShiftedBy.nextAmong (h : l.ShiftedBy n k l') (pieces : List Piece) :
    (l'.nextAmong pieces).1 = (l.nextAmong pieces).1.shift n k ∧
      (l.nextAmong pieces).2.ShiftedBy n k (l'.nextAmong pieces).2 := by
  induction pieces generalizing l l' with
  | nil =>
    refine ⟨?_, h.facing []⟩
    show Token.endOfFile l'.position = (Token.endOfFile l.position).shift n k
    rw [h.position]
    rfl
  | cons piece pieces ih =>
    cases ht : piece.token? with
    | none =>
      rw [nextAmong_gap ht, nextAmong_gap ht]
      exact ih (h.behind piece)
    | some t =>
      rw [nextAmong_token ht, nextAmong_token ht, h.position]
      exact ⟨rfl, (h.behind piece).facing pieces⟩

theorem ShiftedBy.next (h : l.ShiftedBy n k l') :
    l'.next.1 = l.next.1.shift n k ∧ l.next.2.ShiftedBy n k l'.next.2 := by
  have hamong := h.nextAmong l.pieces
  rw [Lexer.next, Lexer.next, h.pieces]
  exact hamong

theorem ShiftedBy.tokenize (h : l.ShiftedBy n k l') :
    l'.tokenize.1 = l.tokenize.1.map (fun t => t.shift n k) ∧ l.tokenize.2.ShiftedBy n k l'.tokenize.2 := by
  induction l using next_induction generalizing l' with
  | next l ih =>
    obtain ⟨htoken, hbehind⟩ := h.next
    have hkind : l'.next.1.kind = l.next.1.kind := by
      rw [htoken]
      rfl
    rw [tokenize_next, l.tokenize_next, hkind]
    split
    · exact ⟨congrArg (fun t => [t]) htoken, hbehind⟩
    · next he =>
      obtain ⟨htokens, hrest⟩ := ih he hbehind
      exact ⟨congrArg₂ List.cons htoken htokens, hrest⟩

end Lexer

end Clite
