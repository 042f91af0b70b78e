import Clite.Proofs.Lexing.Shift
import Clite.Proofs.Parsing.Alike
import Clite.Proofs.Parsing.Reports
import Clite.Proofs.Parsing.Statement

/-!
# Statements behind other statements

Statements have no separator, but what is read without an error up to the end of a text is read in the same way in
front of anything that does not go on with the last statement, as an operator or an `else` would.  Behind it stands a
parser that differs from one on the rest of the text in places only (`Parser.shiftedBy_of_upcoming`), and two such
parsers take the same steps.  So the statements of the rest are read and reported as if they stood alone
(`Parse.statements_append_newline`).
-/

namespace Clite

/-! ### Places between pieces -/

namespace Piece

/-- The first of the pieces, if there are any, stands for a token. -/
def BeginWithToken (pieces : List Piece) : Prop := ∀ piece ∈ pieces.head?, piece.token? ≠ none

private theorem between_eq_nil {between ahead : List Piece} (hfirst : BeginWithToken (between ++ ahead))
    (htokens : (between ++ ahead).filterMap token? = ahead.filterMap token?) : between = [] := by
  cases between with
  | nil => rfl
  | cons piece between =>
    have hnone : (piece :: between).filterMap token? = [] := by
      rw [List.filterMap_append] at htokens
      simpa using htokens
    exact absurd (List.filterMap_eq_nil_iff.1 hnone piece (by simp)) (hfirst piece rfl)

/-- There is one place only where a text can be cut in front of a token, so that certain tokens are behind the cut. -/
theorem cut_unique {before ahead before' ahead' : List Piece} (h : before ++ ahead = before' ++ ahead')
    (hfirst : BeginWithToken ahead) (hfirst' : BeginWithToken ahead')
    (htokens : ahead.filterMap token? = ahead'.filterMap token?) : before = before' ∧ ahead = ahead' := by
  rcases List.append_eq_append_iff.1 h with ⟨between, rfl, rfl⟩ | ⟨between, rfl, rfl⟩
  · obtain rfl := between_eq_nil hfirst htokens
    exact ⟨(List.append_nil _).symm, rfl⟩
  · obtain rfl := between_eq_nil hfirst' htokens.symm
    exact ⟨List.append_nil _, rfl⟩

end Piece

namespace Parser

/-- The parser looks at the first of the pieces, which begins at `place`; if there are none, at the end of the file. -/
inductive LooksAt (place : Position) : List Piece → Parser → Prop
  | token {p : Parser} {piece : Piece} {rest : List Piece} {kind : TokenKind} {lexeme : String}
    (ht : piece.token? = some (kind, lexeme)) (hkind : kind ≠ .endOfFile)
    (hcurrent : p.current = ⟨place, kind, lexeme⟩) (hpieces : p.lexer.pieces = rest)
    (hposition : p.lexer.position = place.advanceAll piece.text) : LooksAt place (piece :: rest) p
  | endOfFile {p : Parser} (hcurrent : p.current = .endOfFile place) (hpieces : p.lexer.pieces = [])
    (hposition : p.lexer.position = place) : LooksAt place [] p

/-- The parser has come to one of the pieces, or to their end. -/
def StandsIn (pieces : List Piece) (p : Parser) : Prop :=
  ∃ before ahead, pieces = before ++ ahead ∧
    p.LooksAt (Position.start.advanceAll (before.flatMap Piece.text)) ahead

namespace LooksAt

variable {place : Position} {ahead : List Piece} {p q : Parser}

theorem beginWithToken (h : p.LooksAt place ahead) : Piece.BeginWithToken ahead := by
  cases h with
  | token ht => simp [Piece.BeginWithToken, ht]
  | endOfFile => simp [Piece.BeginWithToken]

theorem upcoming (h : p.LooksAt place ahead) (hreg : p.Regular) : p.upcoming = ahead.filterMap Piece.token? := by
  cases h with
  | token ht hkind hcurrent hpieces =>
    rw [Parser.upcoming, hcurrent, if_neg hkind, hreg.lexer.upcoming_eq, hpieces, List.filterMap_cons_some ht]
    rfl
  | endOfFile hcurrent =>
    rw [Parser.upcoming, hcurrent]
    rfl

/-- It hangs on the current token and on where the lexer is, and not on what is reported. -/
theorem of_same (h : p.LooksAt place ahead) (hcurrent : q.current = p.current)
    (hpieces : q.lexer.pieces = p.lexer.pieces) (hposition : q.lexer.position = p.lexer.position) :
    q.LooksAt place ahead := by
  cases h with
  | token ht hkind hc hp hpos =>
    exact .token ht hkind (hcurrent.trans hc) (hpieces.trans hp) (hposition.trans hpos)
  | endOfFile hc hp hpos => exact .endOfFile (hcurrent.trans hc) (hpieces.trans hp) (hposition.trans hpos)

/-- What a parser looks at and the place of it say where the parser is. -/
theorem shift {n k : Nat} (h : p.LooksAt place ahead) (h' : q.LooksAt (place.shift n k) ahead) :
    q.current = p.current.shift n k ∧ q.lexer.pieces = p.lexer.pieces ∧
      q.lexer.position = p.lexer.position.shift n k := by
  cases h with
  | token ht hkind hcurrent hpieces hposition =>
    cases h' with
    | token ht' hkind' hcurrent' hpieces' hposition' =>
      obtain ⟨rfl, rfl⟩ := Prod.mk.inj (Option.some.inj (ht'.symm.trans ht))
      rw [hcurrent, hcurrent', hpieces, hpieces', hposition, hposition', Position.advanceAll_shift]
      exact ⟨rfl, rfl, rfl⟩
  | endOfFile hcurrent hpieces hposition =>
    cases h' with
    | endOfFile hcurrent' hpieces' hposition' =>
      rw [hcurrent, hcurrent', hpieces, hpieces', hposition, hposition']
      exact ⟨rfl, rfl, rfl⟩

end LooksAt

private theorem standsIn_next {l : Lexer} (hreg : l.Regular) (before : List Piece)
    (hl : l.position = Position.start.advanceAll (before.flatMap Piece.text)) (errors : Nat) :
    StandsIn (before ++ l.pieces) ⟨l.next.2, l.next.1, errors⟩ := by
  have hplace (pieces : List Piece) :
      (l.behindAll pieces).position = Position.start.advanceAll ((before ++ pieces).flatMap Piece.text) := by
    rw [Lexer.position_behindAll, hl, List.flatMap_append, Position.advanceAll_append]
  rcases l.next_cases with ⟨-, hn⟩ | ⟨gaps, piece, rest, kind, lexeme, hp, -, ht, hn⟩
  · refine ⟨before ++ l.pieces, [], (List.append_nil _).symm, ?_⟩
    rw [hn, ← hplace]
    exact .endOfFile rfl rfl rfl
  · refine ⟨before ++ gaps, piece :: rest, by rw [hp, List.append_assoc], ?_⟩
    rw [hn, ← hplace]
    exact .token ht (hreg piece (by simp [hp]) kind lexeme ht) rfl rfl (Lexer.position_behind _ _)

theorem StandsIn.advance {pieces : List Piece} {p : Parser} (h : p.StandsIn pieces) (hreg : p.Regular) :
    p.advance.StandsIn pieces := by
  obtain ⟨before, ahead, rfl, hlooks⟩ := h
  cases hlooks with
  | @token _ piece rest kind lexeme ht hkind hcurrent hpieces hposition =>
    have hnext := standsIn_next hreg.lexer (before ++ [piece])
      (by rw [hposition, List.flatMap_append, Position.advanceAll_append, List.flatMap_singleton]) p.syntaxErrors
    rw [hpieces, List.append_assoc] at hnext
    exact hnext
  | endOfFile hcurrent hpieces hposition =>
    have hnext := standsIn_next hreg.lexer before hposition p.syntaxErrors
    rw [hpieces] at hnext
    exact hnext

theorem StandsIn.of_same {pieces : List Piece} {p q : Parser} (h : p.StandsIn pieces)
    (hcurrent : q.current = p.current) (hpieces : q.lexer.pieces = p.lexer.pieces)
    (hposition : q.lexer.position = p.lexer.position) : q.StandsIn pieces := by
  obtain ⟨before, ahead, hcut, hlooks⟩ := h
  exact ⟨before, ahead, hcut, hlooks.of_same hcurrent hpieces hposition⟩

/-- Parsing goes from one token of the text to the next. -/
theorem Reaches.standsIn {source : String} {p : Parser} (h : (ofSource source).Reaches p) :
    p.StandsIn (Piece.split source.toList) := by
  have hreg {q : Parser} (hq : (ofSource source).Reaches q) : q.Regular := hq.regular (regular_ofSource source)
  induction h with
  | refl => exact standsIn_next (Lexer.regular_ofSource source) [] rfl 0
  | advance hq ih => exact ih.advance (hreg hq)
  | report _ _ ih => exact ih.of_same rfl rfl rfl
  | reject hq _ ih => exact (ih.advance (hreg hq)).of_same rfl rfl rfl
  | noteProgram _ _ _ ih => exact ih.of_same rfl rfl rfl

/-! ### Parsers at different places -/

/-- The second parser looks at the same token, has the same before it and the same errors behind it as the first, all of
it so many characters and lines further on. -/
structure ShiftedBy (characters lines : Nat) (p q : Parser) : Prop where
  current : q.current = p.current.shift characters lines
  lexer : p.lexer.ShiftedBy characters lines q.lexer
  syntaxErrors : q.syntaxErrors = p.syntaxErrors

namespace ShiftedBy

variable {n k : Nat} {p q : Parser}

theorem advance (h : p.ShiftedBy n k q) : p.advance.ShiftedBy n k q.advance where
  current := h.lexer.next.1
  lexer := h.lexer.next.2
  syntaxErrors := h.syntaxErrors

theorem report (h : p.ShiftedBy n k q) {e e' : SyntaxError} (hposition : e'.position = e.position.shift n k)
    (hmessage : e.message = e'.message) : (p.report e).ShiftedBy n k (q.report e') where
  current := h.current
  lexer := by
    refine ⟨h.lexer.pieces, h.lexer.position, h.lexer.errorCount, ?_⟩
    show (q.lexer.reporter.error e'.message (some e'.position)).diagnostics =
      (p.lexer.reporter.error e.message (some e.position)).diagnostics.map fun d => d.shift n k
    rw [Reporter.error, Reporter.error, Reporter.diagnostics_report, Reporter.diagnostics_report,
      h.lexer.diagnostics, List.map_append, hposition, ← hmessage]
    rfl
  syntaxErrors := congrArg (· + 1) h.syntaxErrors

theorem noteProgram (h : p.ShiftedBy n k q) (ds ss : Nat) :
    (p.noteProgram ds ss).ShiftedBy n k (q.noteProgram ds ss) where
  current := h.current
  lexer := ⟨h.lexer.pieces, h.lexer.position, h.lexer.errorCount, h.lexer.diagnostics⟩
  syntaxErrors := h.syntaxErrors

end ShiftedBy

/-- In the same steps parsers stay as far from each other as they are. -/
theorem Lockstep.shiftedBy {n k : Nat} {p₀ q₀ p q : Parser} (h : p₀.Lockstep q₀ p q) (h₀ : p₀.ShiftedBy n k q₀) :
    p.ShiftedBy n k q := by
  induction h with
  | start _ => exact h₀
  | advance _ ih => exact ih.advance
  | report _ hp hq he ih => exact ih.report (by rw [hp, hq, ih.current]; rfl) he
  | reject _ hp hq he ih => exact ih.advance.report (by rw [hp, hq, ih.current]; rfl) he
  | noteProgram ds ss _ ih => exact ih.noteProgram ds ss

theorem ShiftedBy.alike {n k : Nat} {p q : Parser} (h : p.ShiftedBy n k q) (hp : p.Consistent) (hq : q.Consistent)
    (hnone : p.syntaxErrors = 0) : p.Alike q := by
  constructor
  · rw [SameTerminal, h.current]
    rfl
  · rw [Lexer.terminals, Lexer.terminals, h.lexer.pieces]
  · rw [syntaxMessages, syntaxMessages, hp.syntaxDiagnostics_eq_nil hnone,
      hq.syntaxDiagnostics_eq_nil (h.syntaxErrors.trans hnone)]

/-- Behind a text without lexical errors, and without syntax errors so far, a parser is where one on the rest alone
would be, only further on. -/
theorem shiftedBy_of_upcoming {s t : String} (hclean : (Lexer.ofSource s).tokenize.2.reporter.diagnostics = [])
    {q : Parser} (hq : (ofSource (s ++ "\n" ++ t)).Reaches q) (hnone : q.syntaxErrors = 0)
    (hupcoming : q.upcoming = (ofSource t).upcoming) :
    (ofSource t).ShiftedBy (s.length + 1) (1 + s.toList.count '\n') q := by
  have hopen : ∀ d ∈ (Lexer.ofSource s).tokenize.2.reporter.diagnostics,
      d.message ≠ "Unterminated character literal" := by simp [hclean]
  -- both parsers look at the same piece
  obtain ⟨before, ahead, hpieces, hlooks⟩ := hq.standsIn
  obtain ⟨before', ahead', hpieces', hlooks'⟩ := (Reaches.refl (p := ofSource t)).standsIn
  rw [hlooks.upcoming (hq.regular (regular_ofSource _)), hlooks'.upcoming (regular_ofSource t)] at hupcoming
  have hcut : before ++ ahead = (Piece.split s.toList ++ [Piece.blank '\n'] ++ before') ++ ahead' := by
    rw [← hpieces, Lexer.split_append_newline s t hopen, hpieces']
    simp
  obtain ⟨rfl, rfl⟩ := Piece.cut_unique hcut hlooks.beginWithToken hlooks'.beginWithToken hupcoming
  have hplace : Position.start.advanceAll ((Piece.split s.toList ++ [Piece.blank '\n'] ++ before').flatMap Piece.text) =
      (Position.start.advanceAll (before'.flatMap Piece.text)).shift (s.length + 1) (1 + s.toList.count '\n') := by
    rw [List.flatMap_append, List.flatMap_append, Piece.flatMap_text_split, Position.advanceAll_append,
      Position.advanceAll_append, ← Position.advanceAll_shift, ← String.length_toList,
      ← Position.advance_advanceAll_start]
    rfl
  rw [hplace] at hlooks
  obtain ⟨hcurrent, hpieces, hposition⟩ := hlooks'.shift hlooks
  -- so they have met the same lexical errors
  have hlexical : q.lexer.lexicalDiagnostics = (ofSource t).lexer.lexicalDiagnostics.map fun d =>
      d.shift (s.length + 1) (1 + s.toList.count '\n') := by
    have hall := Lexer.diagnostics_append_newline s t hopen
    rw [hclean, List.nil_append, ← lexicalDiagnostics_ofSource, ← lexicalDiagnostics_ofSource,
      ← hq.lexicalDiagnostics_eq, lexicalDiagnostics, lexicalDiagnostics, hpieces, hposition,
      Piece.diagnosticsFrom_shift, List.map_append] at hall
    exact List.append_cancel_right hall
  have hconsistent := hq.consistent (consistent_ofSource _)
  refine ⟨hcurrent, ⟨hpieces, hposition, ?_, ?_⟩, hnone⟩
  · rw [hconsistent.lexer.counted, hlexical, List.length_map, (consistent_ofSource t).lexer.counted]
  · rw [hconsistent.lexer.diagnostics_of_lexical (hconsistent.syntaxDiagnostics_eq_nil hnone), hlexical,
      (consistent_ofSource t).lexer.diagnostics_of_lexical (Lexer.syntaxDiagnostics_next _)]

end Parser

/-! ### Statements -/

namespace Parse

open Clite.Parser

/-- A text that is read to its end without any error is made up of statements and has no lexical errors. -/
private theorem exists_items {s : String} (hclean : (statements.run (ofSource s)).2.diagnostics = [])
    (hend : (statements.run (ofSource s)).2.current.kind = .endOfFile) :
    (Lexer.ofSource s).tokenize.2.reporter.diagnostics = [] ∧
      ∃ items : List (List Terminal × Stmt), (∀ item ∈ items, Grammar.Statement maxNesting item.1 item.2) ∧
        (ofSource s).upcoming = items.flatMap (·.1) ∧
        (statements.run (ofSource s)).1 = some (items.map (·.2)) := by
  have hreaches := statements.reaches_run (ofSource s)
  have hconsistent := hreaches.consistent (consistent_ofSource s)
  have hcount : (statements.run (ofSource s)).2.errorCount = 0 := by
    rw [hconsistent.errorCount_eq, hclean]
    rfl
  obtain ⟨hlexical, hsyntactic⟩ := Nat.add_eq_zero_iff.1 hcount
  constructor
  · rw [← hreaches.lexicalDiagnostics_prefix.2 hend, ← List.length_eq_zero_iff, ← hconsistent.lexer.counted, hlexical]
  · have hsound := @clean_statementsOver _ (statementIn maxNesting).2 _ (sound_statementIn maxNesting)
    obtain ⟨_, hss, ⟨_, hw, items, rfl, rfl, hitems⟩, -⟩ := hsound _ _ (regular_ofSource s) rfl hsyntactic
    rw [show ((statementsOver _ _).run (ofSource s)).2.upcoming = [] from upcoming_eq_nil.2 hend,
      List.append_nil] at hw
    exact ⟨items, hitems, hw, hss⟩

/-- Statements that are read up to the end of a text without any error are read in the same way in front of a text on a
new line that does not begin with an operator or an `else`.  Behind them the statements of that text are read as if it
stood alone, and the same is reported, as many characters and lines further on as there are in front of it. -/
theorem statements_append_newline (s t : String)
    (hclean : (statements.run (ofSource s)).2.diagnostics = [])
    (hend : (statements.run (ofSource s)).2.current.kind = .endOfFile)
    (helse : (Lexer.ofSource t).next.1.kind ≠ .elseWord)
    (hoperator : ∀ op, (Lexer.ofSource t).next.1.kind ≠ .operator op) :
    let characters := s.length + 1
    let lines := 1 + s.toList.count '\n'
    let first := statements.run (ofSource s)
    let alone := statements.run (ofSource t)
    let both := statements.run (ofSource (s ++ "\n" ++ t))
    ∃ ss ts, first.1 = some ss ∧ alone.1 = some ts ∧ both.1 = some (ss ++ ts) ∧
      both.2.diagnostics = alone.2.diagnostics.map fun d => d.shift characters lines := by
  intro characters lines first alone both
  obtain ⟨hlexical, items, hitems, hitems', hfirst⟩ := exists_items hclean hend
  -- the statements of the first text are passed
  have hupcoming : (ofSource (s ++ "\n" ++ t)).upcoming = items.flatMap (·.1) ++ (ofSource t).upcoming := by
    rw [upcoming_ofSource, Lexer.split_append_newline s t (by simp [hlexical]), List.filterMap_append,
      ← upcoming_ofSource, hitems', List.filterMap_cons_none rfl, ← upcoming_ofSource]
  have hfollows (a : Stmt) : FollowsStatement a (ofSource t).upcoming := by
    have hhead : headKind (ofSource t).upcoming = (Lexer.ofSource t).next.1.kind := (kind_current _).symm
    exact ⟨fun op => hhead ▸ hoperator op, fun _ => hhead ▸ helse⟩
  obtain ⟨q, hq, hnone, hrest, hrun⟩ := statementsOver_passes (statementIn maxNesting).2
    (complete_statementIn maxNesting) hitems hfollows (regular_ofSource _) hupcoming
  have hboth : both = ((statements.run q).1.map (items.map (·.2) ++ ·), (statements.run q).2) := hrun
  -- and behind them the parser does what it does on the second text alone
  have hshifted := shiftedBy_of_upcoming hlexical hq hnone hrest
  have halike := hshifted.alike (consistent_ofSource t) (hq.consistent (consistent_ofSource _)) rfl
  obtain ⟨hresult, hsteps⟩ := ignoresPlaces_iff.1 ignoresPlaces_statements (.start halike)
  have halone : alone.1 = some (alone.1.getD []) := rfl
  refine ⟨_, _, hfirst, halone, ?_, ?_⟩
  · rw [hboth, ← hresult]
    rfl
  · rw [hboth]
    exact (hsteps.shiftedBy hshifted).lexer.diagnostics

/-- A conditional without an `else` is left alone by faulty statements behind it. -/
theorem statements_append_newline_faulty :
    let s := "if (a) x = 1"
    let t := "y = # ; ) x = 2"
    ((statements.run (ofSource s)).2.diagnostics = [] ∧
      (statements.run (ofSource s)).2.current.kind = .endOfFile ∧
      (Lexer.ofSource t).next.1.kind ≠ .elseWord ∧ ∀ op, (Lexer.ofSource t).next.1.kind ≠ .operator op) ∧
    ∃ ss ts, (statements.run (ofSource s)).1 = some ss ∧ (statements.run (ofSource t)).1 = some ts ∧
      (statements.run (ofSource (s ++ "\n" ++ t))).1 = some (ss ++ ts) ∧
      (statements.run (ofSource (s ++ "\n" ++ t))).2.diagnostics =
        (statements.run (ofSource t)).2.diagnostics.map fun d => d.shift 13 1 := by
  intro s t
  have hcharacters : s.length + 1 = 13 := by decide
  have hlines : 1 + s.toList.count '\n' = 1 := by decide
  have hclean : (statements.run (ofSource s)).2.diagnostics = [] := by decide +kernel
  have hend : (statements.run (ofSource s)).2.current.kind = .endOfFile := by decide +kernel
  have hkind : (Lexer.ofSource t).next.1.kind = .identifier := by decide +kernel
  have helse : (Lexer.ofSource t).next.1.kind ≠ .elseWord := by simp [hkind]
  have hoperator : ∀ op, (Lexer.ofSource t).next.1.kind ≠ .operator op := by simp [hkind]
  have hconcatenation := statements_append_newline s t hclean hend helse hoperator
  rw [hcharacters, hlines] at hconcatenation
  exact ⟨⟨hclean, hend, helse, hoperator⟩, hconcatenation⟩

end Parse

end Clite
