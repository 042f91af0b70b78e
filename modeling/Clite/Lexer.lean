import Clite.Event

/-!
# The lexer

A lexer hands out the tokens of a source text one at a time.  On its way to a token it passes over blanks and
comments, and over text that belongs to no token; that text is reported, and the lexer goes on behind it.  Behind
the last token it hands out the end of file for as long as it is asked.
-/

namespace Clite

structure Lexer where
  /-- the text still to be scanned, cut into pieces -/
  pieces : List Piece
  position : Position
  /-- lexical errors since the text was opened -/
  errorCount : Nat
  reporter : Reporter
  trace : Log Event

namespace Lexer

/-- Turns to a new text.  The count and the log start anew; what was handed on stays handed on. -/
def reopen (l : Lexer) (source : String) : Lexer where
  pieces := Piece.split source.toList
  position := .start
  errorCount := 0
  reporter := l.reporter.clear
  trace := l.trace.push (.opened source.length)

/-- A lexer on a text, with nothing reported yet. -/
def ofSource (source : String) : Lexer :=
  reopen ⟨[], .start, 0, .empty, .empty⟩ source

def emit (l : Lexer) (event : Event) : Lexer := { l with trace := l.trace.push event }

/-- Reports a lexical error. -/
def report (l : Lexer) (error : LexicalError) (position : Position) : Lexer :=
  { l with
    errorCount := l.errorCount + 1
    reporter := l.reporter.error error.message (some position)
    trace := l.trace.push (.lexicalError error position) }

/-- Adds to the log an error that is not a lexical one. -/
def addError (l : Lexer) (message : String) : Lexer :=
  { l with reporter := l.reporter.error message none }

/-- Behind a piece, whose error is reported if it has one. -/
def pass (l : Lexer) (piece : Piece) : Lexer :=
  let behind := { l with position := l.position.advanceAll piece.text }
  match piece.error? l.position with
  | none => behind
  | some (error, position) => behind.report error position

/-- The next token among `pieces`, and the lexer behind it. -/
def nextAmong (l : Lexer) : List Piece → Token × Lexer
  | [] => (.endOfFile l.position, { l with pieces := [] })
  | piece :: rest =>
    match piece.token? with
    | none => (l.pass piece).nextAmong rest
    | some (kind, lexeme) =>
      let token : Token := ⟨l.position, kind, lexeme⟩
      (token, { (l.pass piece).emit (.scanned token) with pieces := rest })

/-- The next token, and the lexer behind it. -/
def next (l : Lexer) : Token × Lexer := l.nextAmong l.pieces

/-- The next `n` tokens; behind the last one they are ends of file. -/
def nextMany (l : Lexer) : (n : Nat) → List Token × Lexer
  | 0 => ([], l)
  | n + 1 =>
    let (token, l) := l.next
    let (tokens, l) := l.nextMany n
    (token :: tokens, l)

/-- Has all of the text been consumed? -/
def atEnd (l : Lexer) : Bool := l.pieces.isEmpty

/-- A token costs a piece at least; only the end of file is handed out for nothing. -/
theorem next_pieces (l : Lexer) :
    l.next.2.pieces.length + (if l.next.1.kind = .endOfFile then 0 else 1) ≤ l.pieces.length := by
  unfold next
  generalize l.pieces = pieces
  induction pieces generalizing l with
  | nil => simp [nextAmong, Token.endOfFile]
  | cons piece rest ih =>
    unfold nextAmong
    split
    · exact Nat.le_succ_of_le (ih _)
    · simp only [List.length_cons]
      split <;> omega

/-- The tokens still to come, behind those already found, which are given last token first. -/
def tokenizeOnto (found : List Token) (l : Lexer) : List Token × Lexer :=
  if l.next.1.kind = .endOfFile then ((l.next.1 :: found).reverse, l.next.2)
  else tokenizeOnto (l.next.1 :: found) l.next.2
termination_by l.pieces.length
decreasing_by
  rename_i h
  have := l.next_pieces
  rw [if_neg h] at this
  omega

/-- All tokens still to come, up to the end of file. -/
def tokenize (l : Lexer) : List Token × Lexer := tokenizeOnto [] l

end Lexer

end Clite
