import Clite.Proofs.Lexing.Tokens

/-!
# A source text as tokens and gaps

A source text consists of its tokens and of what stands between them, and nothing is lost or read twice.  What a
token takes up is told by its kind and its lexeme; the lexer counts an error for each gap that it rejects and for
each character literal that is not closed.
-/

namespace Clite

/-- What stands between tokens. -/
inductive Gap where
  | blank (c : Char)
  /-- a comment, without its two slashes -/
  | comment (body : List Char)
  | rejected (what : Rejected)
  deriving DecidableEq, Repr

inductive Stretch where
  /-- what a token takes up; a character literal may lack its closing quote -/
  | token (token : Token) (closed : Bool)
  | gap (gap : Gap)
  deriving DecidableEq, Repr

/-- The text of a token: its symbol for punctuation, the quoted lexeme for a character literal, and the lexeme for
all others. -/
def Token.span (t : Token) (closed : Bool) : List Char :=
  if t.kind.isPunctuation then t.kind.text.toList
  else if t.kind = .charLiteral then '\'' :: t.lexeme.toList ++ if closed then ['\''] else []
  else t.lexeme.toList

namespace Gap

def text : Gap → List Char
  | blank c => [c]
  | comment body => '/' :: '/' :: body
  | rejected what => what.text

/-- What is true of a gap in front of the text `rest`. -/
def Precedes (gap : Gap) (rest : List Char) : Prop :=
  match gap with
  | blank c => c ∈ [' ', '\t', '\n', '\r']
  | comment body => '\n' ∉ body ∧ ∀ c ∈ rest.head?, c = '\n'
  | rejected (.illegal c) => c ∉ [' ', '\t', '\n', '\r'] ∧ ¬ StartsToken c
  | rejected (.lone c) => (c = '&' ∨ c = '|') ∧ rest.head? ≠ some c
  | rejected .emptyLiteral => True
  | rejected .openLiteral => rest = []

end Gap

namespace Stretch

def text : Stretch → List Char
  | token t closed => t.span closed
  | gap g => g.text

/-- What is true of a stretch behind `offset` characters and in front of the text `rest`. -/
def StandsAt (s : Stretch) (offset : Nat) (rest : List Char) : Prop :=
  match s with
  | token t closed =>
    t.position.offset = offset ∧ t.kind ≠ .endOfFile ∧
      (t.kind = .charLiteral → ∃ c, t.lexeme = String.singleton c ∧ c ≠ '\'') ∧
      (closed = false → t.kind = .charLiteral ∧ rest.head? ≠ some '\'')
  | gap g => g.Precedes rest

def token? : Stretch → Option Token
  | token t _ => some t
  | gap _ => none

def isRejected : Stretch → Bool
  | gap (.rejected _) => true
  | _ => false

def isUnclosed : Stretch → Bool
  | token _ false => true
  | _ => false

end Stretch

namespace Piece

/-- What a piece that begins at `start` is in the source text. -/
def stretch (start : Position) : Piece → Stretch
  | blank c => .gap (.blank c)
  | comment body => .gap (.comment body)
  | rejected what => .gap (.rejected what)
  | word letters => .token ⟨start, wordKind letters, String.ofList letters⟩ true
  | integer digits => .token ⟨start, .intLiteral, String.ofList digits⟩ true
  | decimal whole fraction => .token ⟨start, .floatLiteral, String.ofList (whole ++ '.' :: fraction)⟩ true
  | symbol kind => .token ⟨start, kind, kind.symbolLexeme⟩ true
  | charLiteral c closed => .token ⟨start, .charLiteral, String.singleton c⟩ closed

def stretchesFrom (start : Position) : List Piece → List Stretch
  | [] => []
  | piece :: rest => piece.stretch start :: stretchesFrom (start.advanceAll piece.text) rest

theorem Fits.text_stretch {piece : Piece} {rest : List Char} (h : piece.Fits rest) (start : Position) :
    (piece.stretch start).text = piece.text := by
  cases piece with
  | word letters =>
    have hmem := wordKind_mem letters
    have hp : ∀ kind ∈ TokenKind.identifier :: TokenKind.reserved,
        kind.isPunctuation = false ∧ kind ≠ .charLiteral := by decide
    simp [stretch, Stretch.text, Token.span, hp _ hmem, text]
  | symbol kind =>
    have hs := h.1
    cases kind with
    | operator op => cases op <;> rfl
    | _ => first | rfl | cases hs
  | charLiteral c closed =>
    cases closed <;> simp [stretch, Stretch.text, Token.span, TokenKind.isPunctuation, text]
  | rejected what => cases what <;> rfl
  | _ => simp [stretch, Stretch.text, Gap.text, Token.span, TokenKind.isPunctuation, text]

private theorem mem_blanks_iff (c : Char) : c ∈ [' ', '\t', '\n', '\r'] ↔ isBlank c := by
  simp [isBlank, or_assoc]

theorem Fits.standsAt {piece : Piece} {rest : List Char} (h : piece.Fits rest) (start : Position) :
    (piece.stretch start).StandsAt start.offset rest := by
  cases piece with
  | blank c => exact (mem_blanks_iff c).2 h
  | comment body => exact h
  | word letters =>
    have hmem := wordKind_mem letters
    have hp : ∀ kind ∈ TokenKind.identifier :: TokenKind.reserved,
        kind ≠ .endOfFile ∧ kind ≠ .charLiteral := by decide
    exact ⟨rfl, (hp _ hmem).1, fun hc => absurd hc (hp _ hmem).2, nofun⟩
  | integer digits => exact ⟨rfl, nofun, nofun, nofun⟩
  | decimal whole fraction => exact ⟨rfl, nofun, nofun, nofun⟩
  | symbol kind =>
    have hs := h.1
    refine ⟨rfl, ?_, ?_, nofun⟩
    · rintro rfl
      exact absurd hs (by decide)
    · rintro rfl
      exact absurd hs (by decide)
  | charLiteral c closed =>
    cases closed with
    | true => exact ⟨rfl, nofun, fun _ => ⟨c, rfl, h⟩, nofun⟩
    | false => exact ⟨rfl, nofun, fun _ => ⟨c, rfl, h.1⟩, fun _ => ⟨rfl, h.2⟩⟩
  | rejected what =>
    cases what with
    | illegal c => exact ⟨fun hb => h.1 ((mem_blanks_iff c).1 hb), h.2⟩
    | lone c => exact h
    | emptyLiteral => trivial
    | openLiteral => exact h

/-! ### The stretches of a text -/

theorem flatMap_text_stretchesFrom_split (start : Position) (s : List Char) :
    (stretchesFrom start (split s)).flatMap Stretch.text = s := by
  induction s using split_induction generalizing start with
  | nil => simp [stretchesFrom]
  | cons c rest ih =>
    rw [split_cons, stretchesFrom, List.flatMap_cons, (fits_first c rest).text_stretch, ih, text_first]

/-- A stretch of a text comes from a piece that fits in front of the stretches behind it. -/
theorem exists_fits_of_stretchesFrom_split {start : Position} {s : List Char} {before after : List Stretch}
    {x : Stretch} (h : stretchesFrom start (split s) = before ++ x :: after) :
    ∃ piece : Piece, piece.stretch (start.advanceAll (before.flatMap Stretch.text)) = x ∧
      piece.Fits (after.flatMap Stretch.text) := by
  induction s using split_induction generalizing start before with
  | nil => simp [stretchesFrom] at h
  | cons c rest ih =>
    rw [split_cons, stretchesFrom] at h
    cases before with
    | nil =>
      -- the first stretch: the text behind it is what the cut has left
      obtain ⟨rfl, rfl⟩ := List.cons.inj h
      rw [flatMap_text_stretchesFrom_split]
      exact ⟨_, rfl, fits_first c rest⟩
    | cons y before =>
      obtain ⟨rfl, htail⟩ := List.cons.inj h
      obtain ⟨piece, hpiece, hfits⟩ := ih htail
      rw [List.flatMap_cons, (fits_first c rest).text_stretch, Position.advanceAll_append]
      exact ⟨piece, hpiece, hfits⟩

theorem standsAt_of_stretchesFrom_split {start : Position} {s : List Char} {before after : List Stretch}
    {x : Stretch} (h : stretchesFrom start (split s) = before ++ x :: after) :
    x.StandsAt (start.offset + (before.flatMap Stretch.text).length) (after.flatMap Stretch.text) := by
  obtain ⟨piece, rfl, hfits⟩ := exists_fits_of_stretchesFrom_split h
  rw [← Position.offset_advanceAll]
  exact hfits.standsAt _

theorem filterMap_token?_stretchesFrom (start : Position) (pieces : List Piece) :
    (stretchesFrom start pieces).filterMap Stretch.token? = tokensFrom start pieces := by
  induction pieces generalizing start with
  | nil => rfl
  | cons piece pieces ih =>
    rw [stretchesFrom, tokensFrom, ← ih]
    cases piece <;> rfl

theorem countP_isFaulty (start : Position) (pieces : List Piece) :
    pieces.countP isFaulty =
      (stretchesFrom start pieces).countP Stretch.isRejected +
        (stretchesFrom start pieces).countP Stretch.isUnclosed := by
  induction pieces generalizing start with
  | nil => rfl
  | cons piece pieces ih =>
    rw [stretchesFrom, List.countP_cons, List.countP_cons, List.countP_cons, ih (start.advanceAll piece.text)]
    have hfaulty : (if piece.isFaulty then 1 else 0) =
        (if (piece.stretch start).isRejected then 1 else 0) +
          if (piece.stretch start).isUnclosed then 1 else 0 := by
      cases piece with
      | charLiteral c closed => cases closed <;> rfl
      | _ => rfl
    omega

end Piece

/-- A source text is made up of its tokens and of gaps. -/
theorem tokenize_partition (source : String) :
    ∃ (stretches : List Stretch) (stop : Position),
      source.toList = stretches.flatMap Stretch.text ∧
      (∀ before s after, stretches = before ++ s :: after →
        s.StandsAt (before.flatMap Stretch.text).length (after.flatMap Stretch.text)) ∧
      (Lexer.ofSource source).tokenize.1 = stretches.filterMap Stretch.token? ++ [.endOfFile stop] ∧
      stop.offset = source.length ∧
      (Lexer.ofSource source).tokenize.2.errorCount =
        stretches.countP Stretch.isRejected + stretches.countP Stretch.isUnclosed := by
  have htok := (Lexer.regular_ofSource source).tokenize_eq
  have hpieces : (Lexer.ofSource source).pieces = Piece.split source.toList := rfl
  have hstart : (Lexer.ofSource source).position = .start := rfl
  rw [hpieces, hstart] at htok
  refine ⟨Piece.stretchesFrom .start (Piece.split source.toList),
    ((Lexer.ofSource source).behindAll (Piece.split source.toList)).position, ?_, ?_, ?_, ?_, ?_⟩
  · rw [Piece.flatMap_text_stretchesFrom_split]
  · intro before s after h
    have hs := Piece.standsAt_of_stretchesFrom_split h
    rwa [show Position.start.offset = 0 from rfl, Nat.zero_add] at hs
  · rw [htok, Piece.filterMap_token?_stretchesFrom]
  · rw [Lexer.position_behindAll, Piece.flatMap_text_split, hstart, Position.offset_advanceAll,
      String.length_toList]
    exact Nat.zero_add _
  · rw [htok, Lexer.errorCount_facing, Lexer.errorCount_behindAll, ← Piece.countP_isFaulty]
    exact Nat.zero_add _

end Clite
