import Clite.Proofs.Lexing.Cutting
import Clite.Proofs.Lexing.Reports

/-!
# Texts put together at a newline

No piece goes on over a newline but a quote that waits for its character.  So unless the text before a newline ends in
such a quote, the text behind the newline is scanned as if it stood alone (`Piece.split_newline`), and its tokens and
errors are the same, only further down (`Lexer.tokenize_append_newline`).
-/

namespace Clite

/-! ### Positions further down -/

namespace Position

/-- The position so many characters and so many lines further on, in the same column. -/
def shift (p : Position) (characters lines : Nat) : Position :=
  ⟨p.offset + characters, p.line + UInt32.ofNat lines, p.column⟩

variable (p : Position) (n k : Nat)

theorem advance_shift (c : Char) : (p.shift n k).advance c = (p.advance c).shift n k := by
  have hoffset : p.offset + n + 1 = p.offset + 1 + n := by omega
  have hline : p.line + UInt32.ofNat k + 1 = p.line + 1 + UInt32.ofNat k := by
    rw [UInt32.add_assoc, UInt32.add_assoc, UInt32.add_comm 1]
  by_cases hc : c = '\n'
  · simp [advance, shift, hc, hoffset, hline]
  · simp [advance, shift, hc, hoffset]

theorem advanceAll_shift (s : List Char) : (p.shift n k).advanceAll s = (p.advanceAll s).shift n k := by
  induction s generalizing p with
  | nil => rfl
  | cons c s ih => rw [advanceAll_cons, advance_shift, ih, advanceAll_cons]

/-- Each newline opens a line. -/
theorem line_advanceAll (s : List Char) : (p.advanceAll s).line = p.line + UInt32.ofNat (s.count '\n') := by
  induction s generalizing p with
  | nil => simp
  | cons c s ih =>
    rw [advanceAll_cons, ih, List.count_cons]
    by_cases hc : c = '\n'
    · simp [advance, hc, UInt32.ofNat_add, UInt32.add_assoc, UInt32.add_comm 1]
    · simp [advance, hc]

/-- Behind a newline a text begins in the first column. -/
theorem advance_advanceAll_start (s : List Char) :
    (start.advanceAll s).advance '\n' = start.shift (s.length + 1) (1 + s.count '\n') := by
  have hline : (start.advanceAll s).line + 1 = 1 + UInt32.ofNat (1 + s.count '\n') := by
    rw [line_advanceAll, UInt32.ofNat_add, UInt32.add_comm (UInt32.ofNat 1), ← UInt32.add_assoc]
    rfl
  rw [advance, if_pos rfl, offset_advanceAll_start, hline]
  simp [shift, start]

end Position

def Token.shift (t : Token) (characters lines : Nat) : Token :=
  { t with position := t.position.shift characters lines }

def Diagnostic.shift (d : Diagnostic) (characters lines : Nat) : Diagnostic :=
  { d with position := d.position.map fun p => p.shift characters lines }

namespace Piece

theorem error?_shift (start : Position) (n k : Nat) (piece : Piece) :
    piece.error? (start.shift n k) = (piece.error? start).map fun e => (e.1, e.2.shift n k) := by
  unfold error?
  split
  · rfl
  · rw [Position.advanceAll_shift]
    rfl
  · rfl

theorem tokensFrom_shift (start : Position) (n k : Nat) (pieces : List Piece) :
    tokensFrom (start.shift n k) pieces = (tokensFrom start pieces).map fun t => t.shift n k := by
  induction pieces generalizing start with
  | nil => rfl
  | cons piece pieces ih =>
    rw [tokensFrom, Position.advanceAll_shift, ih, tokensFrom, List.map_append]
    cases piece.token? <;> rfl

theorem diagnosticsFrom_shift (start : Position) (n k : Nat) (pieces : List Piece) :
    diagnosticsFrom (start.shift n k) pieces = (diagnosticsFrom start pieces).map fun d => d.shift n k := by
  induction pieces generalizing start with
  | nil => rfl
  | cons piece pieces ih =>
    rw [diagnosticsFrom, Position.advanceAll_shift, ih, error?_shift, diagnosticsFrom, List.map_append]
    cases piece.error? start <;> rfl

theorem tokensFrom_append (start : Position) (pieces others : List Piece) :
    tokensFrom start (pieces ++ others) =
      tokensFrom start pieces ++ tokensFrom (start.advanceAll (pieces.flatMap text)) others := by
  induction pieces generalizing start with
  | nil => rfl
  | cons piece pieces ih =>
    rw [List.cons_append, tokensFrom, tokensFrom, ih, List.flatMap_cons, Position.advanceAll_append,
      List.append_assoc]

/-! ### Cutting at a newline -/

/-- A piece that fits in front of a text still does when a newline is put behind that text. -/
theorem Fits.append_newline {piece : Piece} {rest : List Char} (h : piece.Fits rest)
    (hopen : piece ≠ rejected .openLiteral) (t : List Char) : piece.Fits (rest ++ '\n' :: t) := by
  -- what comes next is what came next before, or the newline
  have hhead : ∀ c ∈ (rest ++ '\n' :: t).head?, c ∈ rest.head? ∨ c = '\n' := by
    intro c hc
    cases rest with
    | nil => exact .inr (Option.some.inj hc).symm
    | cons d rest => exact .inl hc
  refine h.of_head hopen ?_ ?_
  · rintro body rfl c hc
    rcases hhead c hc with hc | hc
    · exact h.2 c hc
    · exact hc
  · intro c hc
    rcases hhead c hc with hc | rfl
    · exact .inl hc
    · exact .inr rfl

/-- Both sides of a newline are cut up apart from each other. -/
theorem split_newline {s : List Char} (h : rejected .openLiteral ∉ split s) (t : List Char) :
    split (s ++ '\n' :: t) = split s ++ blank '\n' :: split t := by
  induction s using split_induction with
  | nil =>
    have hblank : (blank '\n').Fits t := rfl
    rw [split_nil]
    exact hblank.split_append
  | cons c rest ih =>
    rw [split_cons, List.mem_cons, not_or] at h
    have hfits := (fits_first c rest).append_newline (Ne.symm h.1) t
    calc split (c :: rest ++ '\n' :: t)
        = split ((first c rest).1.text ++ ((first c rest).2 ++ '\n' :: t)) := by
          rw [← List.append_assoc, text_first]
      _ = (first c rest).1 :: split ((first c rest).2 ++ '\n' :: t) := hfits.split_append
      _ = split (c :: rest) ++ blank '\n' :: split t := by rw [ih h.2, split_cons, List.cons_append]

/-- Text that is rejected is reported. -/
theorem exists_diagnostic_of_rejected {what : Rejected} {pieces : List Piece} (h : rejected what ∈ pieces)
    (start : Position) : ∃ d ∈ diagnosticsFrom start pieces, d.message = (LexicalError.rejected what).message := by
  induction pieces generalizing start with
  | nil => simp at h
  | cons piece pieces ih =>
    rw [diagnosticsFrom]
    rcases List.mem_cons.1 h with rfl | h
    · exact ⟨⟨(LexicalError.rejected what).message, some start⟩, by simp [error?], rfl⟩
    · obtain ⟨d, hd, hmessage⟩ := ih h (start.advanceAll piece.text)
      exact ⟨d, List.mem_append_right _ hd, hmessage⟩

end Piece

namespace Lexer

/-- Unless the text `s` ends in a quote without a character, it is cut up apart from what comes on the next line. -/
theorem split_append_newline (s t : String)
    (h : ∀ d ∈ (ofSource s).tokenize.2.reporter.diagnostics, d.message ≠ "Unterminated character literal") :
    Piece.split (s ++ "\n" ++ t).toList = Piece.split s.toList ++ .blank '\n' :: Piece.split t.toList := by
  have htext : (s ++ "\n" ++ t).toList = s.toList ++ '\n' :: t.toList := by simp
  have hopen : Piece.rejected .openLiteral ∉ Piece.split s.toList := by
    intro hmem
    obtain ⟨d, hd, hmessage⟩ := Piece.exists_diagnostic_of_rejected hmem .start
    rw [← diagnostics_tokenize_eq] at hd
    exact h d hd hmessage
  rw [htext, Piece.split_newline hopen]

/-- The errors on both sides of the newline are reported one after the other. -/
theorem diagnostics_append_newline (s t : String)
    (h : ∀ d ∈ (ofSource s).tokenize.2.reporter.diagnostics, d.message ≠ "Unterminated character literal") :
    (ofSource (s ++ "\n" ++ t)).tokenize.2.reporter.diagnostics =
      (ofSource s).tokenize.2.reporter.diagnostics ++ (ofSource t).tokenize.2.reporter.diagnostics.map fun d =>
        d.shift (s.length + 1) (1 + s.toList.count '\n') := by
  have hbehind : (Position.start.advanceAll s.toList).advance '\n' =
      Position.start.shift (s.length + 1) (1 + s.toList.count '\n') := by
    rw [Position.advance_advanceAll_start, String.length_toList]
  rw [diagnostics_tokenize_eq, diagnostics_tokenize_eq, diagnostics_tokenize_eq, split_append_newline s t h,
    Piece.diagnosticsFrom_append, Piece.flatMap_text_split, ← Piece.diagnosticsFrom_shift, ← hbehind]
  rfl

/-- Unless the text `s` ends in a quote without a character, the tokens of a text that goes on with `t` on a new line
are those of `s` but for the end of the file, and behind them those of `t`, as many characters and lines further on as
there are in front of `t`; and so are its errors. -/
theorem tokenize_append_newline (s t : String)
    (h : ∀ d ∈ (ofSource s).tokenize.2.reporter.diagnostics, d.message ≠ "Unterminated character literal") :
    let characters := s.length + 1
    let lines := 1 + s.toList.count '\n'
    (∃ tokens stop, (ofSource s).tokenize.1 = tokens ++ [.endOfFile stop] ∧
      (ofSource (s ++ "\n" ++ t)).tokenize.1 =
        tokens ++ (ofSource t).tokenize.1.map fun token => token.shift characters lines) ∧
    (ofSource (s ++ "\n" ++ t)).tokenize.2.reporter.diagnostics =
      (ofSource s).tokenize.2.reporter.diagnostics ++
        (ofSource t).tokenize.2.reporter.diagnostics.map fun d => d.shift characters lines := by
  intro characters lines
  have htext : (s ++ "\n" ++ t).toList = s.toList ++ '\n' :: t.toList := by simp
  have hsplit := split_append_newline s t h
  -- behind the newline
  have hbehind : (Position.start.advanceAll s.toList).advance '\n' = Position.start.shift characters lines := by
    rw [Position.advance_advanceAll_start, String.length_toList]
  constructor
  · refine ⟨_, _, tokens_tokenize s, ?_⟩
    rw [tokens_tokenize, tokens_tokenize, hsplit, htext, Piece.tokensFrom_append, Piece.flatMap_text_split,
      List.append_assoc, Position.advanceAll_append, Position.advanceAll_cons, List.map_append,
      ← Piece.tokensFrom_shift, hbehind, Position.advanceAll_shift, ← hbehind]
    rfl
  · exact diagnostics_append_newline s t h

/-- The newline is no part of the literal in front of it, and the quote behind the newline does not close it. -/
theorem tokenize_append_newline_unclosed :
    (∀ d ∈ (ofSource "a & 'b").tokenize.2.reporter.diagnostics, d.message ≠ "Unterminated character literal") ∧
    (∃ tokens stop, (ofSource "a & 'b").tokenize.1 = tokens ++ [.endOfFile stop] ∧
      (ofSource ("a & 'b" ++ "\n" ++ "' = #")).tokenize.1 =
        tokens ++ (ofSource "' = #").tokenize.1.map fun token => token.shift 7 1) ∧
    (ofSource ("a & 'b" ++ "\n" ++ "' = #")).tokenize.2.reporter.diagnostics =
      (ofSource "a & 'b").tokenize.2.reporter.diagnostics ++
        (ofSource "' = #").tokenize.2.reporter.diagnostics.map fun d => d.shift 7 1 := by
  have h : ∀ d ∈ (ofSource "a & 'b").tokenize.2.reporter.diagnostics,
      d.message ≠ "Unterminated character literal" := by decide +kernel
  exact ⟨h, tokenize_append_newline "a & 'b" "' = #" h⟩

end Lexer

end Clite
