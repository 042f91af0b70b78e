import Clite.Proofs.Lexing.Lines

/-!
# Rejected text as blanks

What the lexer rejects it passes over like blanks.  So if every character that is rejected is replaced by a blank
(`clear`), the text is cut at the same places (`Piece.split_clearedText`), its tokens stay the same and stay where they
are, and of its errors those of unclosed character literals are left (`Lexer.tokenize_clear`).
-/

namespace Clite

namespace Piece

/-- The text of a piece, with a blank for each character that is rejected. -/
def clearedText : Piece → List Char
  | rejected what => List.replicate what.text.length ' '
  | piece => piece.text

end Piece

/-- The source text with a blank for each character that is rejected. -/
def clear (source : String) : String := String.ofList ((Piece.split source.toList).flatMap Piece.clearedText)

/-! ### Positions -/

/-- Where there are no newlines, only the number of the characters counts. -/
theorem Position.advanceAll_replicate {s : List Char} (h : '\n' ∉ s) (p : Position) :
    p.advanceAll (List.replicate s.length ' ') = p.advanceAll s := by
  induction s generalizing p with
  | nil => rfl
  | cons c s ih =>
    rw [List.mem_cons, not_or] at h
    have hadvance : p.advance ' ' = p.advance c := by simp [advance, Ne.symm h.1]
    rw [List.length_cons, List.replicate_succ, advanceAll_cons, advanceAll_cons, ih h.2, hadvance]

namespace Piece

/-- The pieces of the text that is left of a piece. -/
def cleared : Piece → List Piece
  | rejected what => List.replicate what.text.length (blank ' ')
  | piece => [piece]

variable {piece : Piece} {rest : List Char}

theorem flatMap_text_cleared (piece : Piece) : piece.cleared.flatMap text = piece.clearedText := by
  cases piece with
  | rejected what => cases what <;> rfl
  | _ => exact List.append_nil _

/-- A piece is rejected, or it stays as it is. -/
theorem cleared_cases (piece : Piece) :
    (∃ what, piece = rejected what) ∨ (piece.cleared = [piece] ∧ piece.clearedText = piece.text) := by
  cases piece with
  | rejected what => exact .inl ⟨what, rfl⟩
  | _ => exact .inr ⟨rfl, rfl⟩

/-- No newline is rejected. -/
theorem Fits.newline_notMem {what : Rejected} (h : (rejected what).Fits rest) : '\n' ∉ what.text := by
  cases what with
  | illegal c =>
    have hc : c ≠ '\n' := by
      rintro rfl
      exact h.1 rfl
    simpa [Rejected.text] using Ne.symm hc
  | lone c => rcases h.1 with rfl | rfl <;> decide
  | emptyLiteral | openLiteral => decide

theorem Fits.advanceAll_clearedText (h : piece.Fits rest) (p : Position) :
    p.advanceAll piece.clearedText = p.advanceAll piece.text := by
  cases piece with
  | rejected what => exact Position.advanceAll_replicate h.newline_notMem p
  | _ => rfl

/-! ### Cutting the text that is left -/

theorem split_replicate_blank (n : Nat) (s : List Char) :
    split (List.replicate n ' ' ++ s) = List.replicate n (blank ' ') ++ split s := by
  induction n with
  | zero => rfl
  | succ n ih =>
    have hblank : (blank ' ').Fits (List.replicate n ' ' ++ s) := rfl
    rw [List.replicate_succ, List.replicate_succ, List.cons_append, List.cons_append, ← ih]
    exact hblank.split_append

/-- What is left of a text begins like the text or with a blank. -/
theorem head_clearedText (s : List Char) :
    ∀ c ∈ ((split s).flatMap clearedText).head?, c ∈ s.head? ∨ isBlank c := by
  cases s with
  | nil => simp
  | cons c rest =>
    intro d hd
    have htext := text_first c rest
    obtain ⟨x, xs, hcons⟩ := List.exists_cons_of_ne_nil (text_first_ne_nil c rest)
    rw [split_cons, List.flatMap_cons] at hd
    rcases cleared_cases (first c rest).1 with ⟨what, hwhat⟩ | ⟨-, hkept⟩
    · have hlong : what.text = x :: xs := by rw [← hcons, hwhat]; rfl
      obtain rfl : ' ' = d := by simpa [hwhat, clearedText, hlong, List.replicate_succ] using hd
      exact .inr rfl
    · obtain rfl : x = d := by simpa [hkept, hcons] using hd
      obtain rfl : x = c := by simpa [hcons] using congrArg List.head? htext
      exact .inl rfl

/-- A newline is not rejected. -/
theorem head_clearedText_of_newline {s : List Char} (h : ∀ c ∈ s.head?, c = '\n') :
    ∀ c ∈ ((split s).flatMap clearedText).head?, c = '\n' := by
  cases s with
  | nil => simp
  | cons c rest =>
    obtain rfl : c = '\n' := h c rfl
    have hblank : first '\n' rest = (blank '\n', rest) := rfl
    simp [split_cons, hblank, clearedText, text]

/-- Text that is rejected is cut into blanks when blanks are put in its place, and nothing else changes. -/
theorem split_clearedText (s : List Char) :
    split ((split s).flatMap clearedText) = (split s).flatMap cleared := by
  induction s using split_induction with
  | nil => simp
  | cons c rest ih =>
    have hfits := fits_first c rest
    rw [split_cons, List.flatMap_cons, List.flatMap_cons, ← ih]
    rcases cleared_cases (first c rest).1 with ⟨what, hwhat⟩ | ⟨hpieces, hkept⟩
    · rw [hwhat]
      exact split_replicate_blank ..
    · rw [hpieces, hkept]
      -- the piece still fits, because what comes next begins as it did or with a blank
      refine (hfits.of_head ?_ ?_ (head_clearedText _)).split_append
      · intro hopen
        rw [hopen] at hpieces
        cases hpieces
      · intro body hbody
        rw [hbody] at hfits
        exact head_clearedText_of_newline hfits.2

/-! ### Tokens and errors of the text that is left -/

theorem tokensFrom_cleared (start : Position) (piece : Piece) :
    tokensFrom start piece.cleared = tokensFrom start [piece] := by
  rcases piece.cleared_cases with ⟨what, rfl⟩ | ⟨hpieces, -⟩
  · have hgaps : ∀ gap ∈ (rejected what).cleared, gap.token? = none := by
      intro gap hgap
      rw [List.eq_of_mem_replicate hgap]
      rfl
    have hnone := tokensFrom_append_of_gaps hgaps start []
    rw [List.append_nil] at hnone
    exact hnone
  · rw [hpieces]

/-- An error in rejected text is not that of an unclosed literal. -/
theorem Fits.message_ne {what : Rejected} (h : (rejected what).Fits rest) :
    (LexicalError.rejected what).message ≠ LexicalError.unclosedLiteral.message := by
  cases what with
  | illegal c =>
    by_cases hnul : c = '\x00'
    · subst hnul
      decide
    · have hmessage : (LexicalError.rejected (.illegal c)).message = "Illegal character: " ++ Text.quotedChar c := by
        rw [LexicalError.message]
        simpa using hnul
      intro heq
      rw [hmessage] at heq
      have hhead := congrArg (fun m => m.toList.head?) heq
      simp [LexicalError.message] at hhead
  | lone c => rcases h.1 with rfl | rfl <;> decide
  | emptyLiteral | openLiteral => decide

theorem Fits.diagnosticsFrom_cleared (h : piece.Fits rest) (start : Position) :
    diagnosticsFrom start piece.cleared =
      (diagnosticsFrom start [piece]).filter fun d => d.message = LexicalError.unclosedLiteral.message := by
  cases piece with
  | rejected what =>
    have hgaps : ∀ gap ∈ (rejected what).cleared, gap.isFaulty = false := by
      intro gap hgap
      rw [List.eq_of_mem_replicate hgap]
      rfl
    rw [diagnosticsFrom_eq_nil hgaps]
    simp [diagnosticsFrom, error?, h.message_ne]
  | charLiteral c closed => cases closed <;> simp [cleared, diagnosticsFrom, error?]
  | _ => rfl

theorem tokensFrom_clearedText (start : Position) (s : List Char) :
    tokensFrom start ((split s).flatMap cleared) = tokensFrom start (split s) := by
  induction s using split_induction generalizing start with
  | nil => simp
  | cons c rest ih =>
    have hfits := fits_first c rest
    have hsplit : split (c :: rest) = [(first c rest).1] ++ split (first c rest).2 := split_cons c rest
    rw [hsplit, List.flatMap_append, List.flatMap_singleton, tokensFrom_append, tokensFrom_append,
      List.flatMap_singleton, flatMap_text_cleared, hfits.advanceAll_clearedText, tokensFrom_cleared, ih]

theorem diagnosticsFrom_clearedText (start : Position) (s : List Char) :
    diagnosticsFrom start ((split s).flatMap cleared) =
      (diagnosticsFrom start (split s)).filter fun d => d.message = LexicalError.unclosedLiteral.message := by
  induction s using split_induction generalizing start with
  | nil => simp [diagnosticsFrom]
  | cons c rest ih =>
    have hfits := fits_first c rest
    have hsplit : split (c :: rest) = [(first c rest).1] ++ split (first c rest).2 := split_cons c rest
    rw [hsplit, List.flatMap_append, List.flatMap_singleton, diagnosticsFrom_append, diagnosticsFrom_append,
      List.flatMap_singleton, flatMap_text_cleared, hfits.advanceAll_clearedText, hfits.diagnosticsFrom_cleared, ih,
      List.filter_append]

theorem advanceAll_clearedText (start : Position) (s : List Char) :
    start.advanceAll ((split s).flatMap clearedText) = start.advanceAll s := by
  induction s using split_induction generalizing start with
  | nil => simp
  | cons c rest ih =>
    rw [split_cons, List.flatMap_cons, Position.advanceAll_append, (fits_first c rest).advanceAll_clearedText, ih,
      ← Position.advanceAll_append, text_first]

end Piece

namespace Lexer

/-- When blanks are put in place of all characters that are rejected, the tokens are the same and stand where they stood,
and of the errors those of unclosed character literals are left, in the same places and in the same order. -/
theorem tokenize_clear (source : String) :
    (ofSource (clear source)).tokenize.1 = (ofSource source).tokenize.1 ∧
    (ofSource (clear source)).tokenize.2.reporter.diagnostics =
      ((ofSource source).tokenize.2.reporter.diagnostics.filter fun d =>
        d.message = "Expected ' to close character literal") ∧
    (ofSource (clear source)).tokenize.2.errorCount =
      (ofSource source).tokenize.2.reporter.diagnostics.countP fun d =>
        d.message = "Expected ' to close character literal" := by
  have htext : (clear source).toList = (Piece.split source.toList).flatMap Piece.clearedText := String.toList_ofList
  have hleft : (ofSource (clear source)).tokenize.2.reporter.diagnostics =
      (ofSource source).tokenize.2.reporter.diagnostics.filter fun d =>
        d.message = "Expected ' to close character literal" := by
    rw [diagnostics_tokenize_eq, htext, Piece.split_clearedText, Piece.diagnosticsFrom_clearedText,
      ← diagnostics_tokenize_eq]
    rfl
  refine ⟨?_, hleft, ?_⟩
  · rw [tokens_tokenize, tokens_tokenize, htext, Piece.split_clearedText, Piece.tokensFrom_clearedText,
      Piece.advanceAll_clearedText]
  · rw [(consistent_tokenize _).counted, ← diagnostics_tokenize, hleft, List.countP_eq_length_filter]

/-- A literal that is not closed stays; a lone symbol, an illegal character, an empty literal and the quote at the end of
the text do not. -/
example : clear "'a&#'' || | '" = "'a     ||    " := by decide +kernel

end Lexer

end Clite
