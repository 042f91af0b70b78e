import Mathlib.Data.List.Basic
import Clite.Proofs.Lexing.Terminals
import Clite.Proofs.Parsing.Alike
import Clite.Proofs.Parsing.Reports

/-!
# Parsing a list of tokens

A parser scans its text token by token while it parses.  It reads the same and reports the same syntax errors as on a
lexer that hands out the finished tokens of the text (`Lexer.ofTokens`), and the lexical errors that it meets on its way
are those that scanning the whole text reports (`Parser.readAll_eq_readAll_tokenize`).
-/

namespace Clite

theorem Piece.map_terminal_tokensFrom (start : Position) (pieces : List Piece) :
    (tokensFrom start pieces).map Token.terminal = pieces.filterMap token? := by
  induction pieces generalizing start with
  | nil => rfl
  | cons piece pieces ih =>
    rw [tokensFrom, List.map_append, ih, List.filterMap_cons]
    cases piece.token? <;> rfl

namespace Lexer

/-- A lexer that hands out tokens with these kinds and lexemes, up to the first end of file. -/
def ofTokens (tokens : List Token) : Lexer where
  pieces := (tokens.takeWhile (·.kind ≠ .endOfFile)).map fun t => t.terminal.piece
  position := .start
  errorCount := 0
  reporter := .empty
  trace := .empty

/-- What is handed out: what there is, and ends of file behind it. -/
theorem terminals_nextMany (l : Lexer) (n : Nat) :
    (l.nextMany n).1.map Token.terminal = (l.terminals ++ List.replicate n ((.endOfFile, "") : Terminal)).take n := by
  induction n generalizing l with
  | zero => simp [nextMany]
  | succ n ih =>
    have hn : l.nextMany (n + 1) = (l.next.1 :: (l.next.2.nextMany n).1, (l.next.2.nextMany n).2) := rfl
    rw [hn, List.map_cons, ih, terminal_next, terminals_next]
    cases l.terminals with
    | nil => simp [List.replicate_succ]
    | cons t ts => simp [List.replicate_succ', ← List.append_assoc, List.take_append_of_le_length]

theorem terminals_ofSource (source : String) :
    (ofSource source).terminals = (Piece.split source.toList).filterMap Piece.token? := rfl

/-- The kinds and lexemes of all tokens of a text, the end of the file among them. -/
theorem map_terminal_tokenize (source : String) :
    (ofSource source).tokenize.1.map Token.terminal = (ofSource source).terminals ++ [(.endOfFile, "")] := by
  obtain ⟨stop, htokens⟩ := tokens_ofSource source
  rw [htokens, List.map_append, Piece.map_terminal_tokensFrom, terminals_ofSource]
  rfl

/-- No piece of a text stands for the end of the file. -/
theorem kind_of_mem_tokensFrom (source : String) :
    ∀ t ∈ Piece.tokensFrom .start (Piece.split source.toList), decide (t.kind ≠ .endOfFile) = true := by
  intro t ht
  have hmem := List.mem_map_of_mem (f := Token.terminal) ht
  rw [Piece.map_terminal_tokensFrom, List.mem_filterMap] at hmem
  obtain ⟨piece, hpiece, hterminal⟩ := hmem
  exact decide_eq_true (regular_ofSource source piece hpiece _ _ hterminal)

/-- The end of the file is the last token. -/
theorem takeWhile_tokenize (source : String) :
    ((ofSource source).tokenize.1.takeWhile (·.kind ≠ .endOfFile)).map Token.terminal =
      (ofSource source).terminals := by
  obtain ⟨stop, htokens⟩ := tokens_ofSource source
  have hkinds := kind_of_mem_tokensFrom source
  rw [htokens, List.takeWhile_append_of_pos hkinds, List.map_append, Piece.map_terminal_tokensFrom,
    terminals_ofSource]
  simp [Token.endOfFile]

/-- Each token of a text can be written down, so that it is handed out again. -/
theorem terminals_ofTokens_tokenize (source : String) :
    (ofTokens (ofSource source).tokenize.1).terminals = (ofSource source).terminals := by
  have hwrites : ∀ t ∈ (ofSource source).terminals, t.piece.token? = some t := by
    intro t ht
    obtain ⟨piece, hpiece, hterminal⟩ := List.mem_filterMap.1 ht
    obtain ⟨rest, hfits⟩ := Piece.exists_fits_of_mem_split hpiece
    exact (hfits.wellFormed hterminal).writes.token
  have hpieces : (ofTokens (ofSource source).tokenize.1).pieces = (ofSource source).terminals.map Terminal.piece := by
    rw [← takeWhile_tokenize source, List.map_map]
    rfl
  rw [terminals, hpieces, List.filterMap_map]
  exact (List.filterMap_congr hwrites).trans List.filterMap_some

/-- The tokens are handed out again with their kinds and lexemes, and ends of file behind them. -/
theorem nextMany_ofTokens_tokenize (source : String) (n : Nat) :
    ((ofTokens (ofSource source).tokenize.1).nextMany n).1.map Token.terminal =
      ((ofSource source).tokenize.1.map Token.terminal ++ List.replicate n ((.endOfFile, "") : Terminal)).take n := by
  rw [terminals_nextMany, terminals_ofTokens_tokenize, map_terminal_tokenize, List.append_assoc,
    List.singleton_append, ← List.replicate_succ, List.replicate_succ', ← List.append_assoc]
  exact (List.take_append_of_le_length (by simp)).symm

end Lexer

namespace Parser

/-- A parser on finished tokens. -/
def ofTokens (tokens : List Token) : Parser := ofLexer (.ofTokens tokens)

/-- Sessions on texts with the same tokens give the same. -/
theorem readAll_of_terminals {l l' : Lexer} (h : l.terminals = l'.terminals)
    (hmessages : l.syntaxDiagnostics = l'.syntaxDiagnostics) (constructs : List Construct) :
    ((ofLexer l).readAll constructs).1 = ((ofLexer l').readAll constructs).1 ∧
      ((ofLexer l).readAll constructs).2.syntaxMessages = ((ofLexer l').readAll constructs).2.syntaxMessages := by
  obtain ⟨hfragments, hsteps⟩ := (Lockstep.start (alike_ofLexer h hmessages)).readAll constructs
  exact ⟨hfragments, hsteps.alike.messages⟩

/-- A session on a text gives the same fragments and reports the same syntax errors as one on the finished tokens of
the text, and as one on any other text whose tokens have the same kinds and lexemes.  At each point of it the log is made
up of syntax errors and of the first lexical errors of the text, and at the end of the file of all of them. -/
theorem readAll_eq_readAll_tokenize (source : String) (constructs : List Construct) :
    let tokens := (Lexer.ofSource source).tokenize.1
    let lexical := (Lexer.ofSource source).tokenize.2.reporter.diagnostics
    let session := (ofSource source).readAll constructs
    (∀ n, ((Lexer.ofTokens tokens).nextMany n).1.map Token.terminal =
      (tokens.map Token.terminal ++ List.replicate n ((.endOfFile, "") : Terminal)).take n) ∧
    (session.1 = ((ofTokens tokens).readAll constructs).1 ∧
      session.2.syntaxMessages = ((ofTokens tokens).readAll constructs).2.syntaxMessages) ∧
    (∀ other : String, (Lexer.ofSource other).tokenize.1.map Token.terminal = tokens.map Token.terminal →
      ((ofSource other).readAll constructs).1 = session.1 ∧
        ((ofSource other).readAll constructs).2.syntaxMessages = session.2.syntaxMessages) ∧
    (ofSource source).Reaches session.2 ∧
    ∀ p, (ofSource source).Reaches p →
      p.diagnostics = p.lexer.trace.toList.filterMap Event.diagnostic? ∧
        p.lexer.lexicalDiagnostics <+: lexical ∧
        (p.current.kind = .endOfFile → p.lexer.lexicalDiagnostics = lexical) := by
  intro tokens lexical session
  refine ⟨Lexer.nextMany_ofTokens_tokenize source, ?_, ?_, reaches_readAll _ constructs, ?_⟩
  · exact readAll_of_terminals (Lexer.terminals_ofTokens_tokenize source).symm rfl constructs
  · intro other htokens
    rw [Lexer.map_terminal_tokenize, Lexer.map_terminal_tokenize] at htokens
    exact readAll_of_terminals (List.append_cancel_right htokens) rfl constructs
  · intro p hp
    have hlog := (hp.consistent (consistent_ofSource source)).lexer.log
    exact ⟨hlog, hp.lexicalDiagnostics_prefix⟩

/-- Blanks, a comment and a character that belongs to no token change nothing. -/
theorem readAll_apart_from_layout :
    (Lexer.ofSource "x = # 1 ; )").tokenize.1.map Token.terminal =
      (Lexer.ofSource "x=1// one\n;)").tokenize.1.map Token.terminal ∧
    ((ofSource "x = # 1 ; )").readAll [.statement, .statement, .expression]).1 =
      ((ofSource "x=1// one\n;)").readAll [.statement, .statement, .expression]).1 := by
  have htokens : (Lexer.ofSource "x = # 1 ; )").tokenize.1.map Token.terminal =
      (Lexer.ofSource "x=1// one\n;)").tokenize.1.map Token.terminal := by decide +kernel
  obtain ⟨-, -, hother, -⟩ :=
    readAll_eq_readAll_tokenize "x=1// one\n;)" [.statement, .statement, .expression]
  exact ⟨htokens, (hother _ htokens).1⟩

end Parser

end Clite
