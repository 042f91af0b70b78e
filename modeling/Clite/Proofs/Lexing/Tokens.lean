import Clite.Lexer
import Clite.Proofs.Lexing.Pieces

/-!
# The tokens of a text

Handing out tokens one at a time (`next_cases`) and all at once (`tokenize_eq`) is stated in terms of the pieces
that the lexer passes on its way.
-/

namespace Clite

namespace Piece

/-- The tokens that a run of pieces stands for, when the first piece begins at `start`. -/
def tokensFrom (start : Position) : List Piece → List Token
  | [] => []
  | piece :: rest =>
    (piece.token?.map fun t => ⟨start, t.1, t.2⟩).toList ++ tokensFrom (start.advanceAll piece.text) rest

/-- Pieces without tokens only move the tokens behind them. -/
theorem tokensFrom_append_of_gaps {gaps : List Piece} (h : ∀ gap ∈ gaps, gap.token? = none) (start : Position)
    (rest : List Piece) :
    tokensFrom start (gaps ++ rest) = tokensFrom (start.advanceAll (gaps.flatMap text)) rest := by
  induction gaps generalizing start with
  | nil => rfl
  | cons gap gaps ih =>
    rw [List.cons_append, tokensFrom, h gap (by simp), ih fun g hg => h g (by simp [hg]), List.flatMap_cons,
      Position.advanceAll_append]
    rfl

end Piece

namespace Lexer

/-- Behind a piece: its error is reported and its token noted, if it has one. -/
def behind (l : Lexer) (piece : Piece) : Lexer :=
  match piece.token? with
  | none => l.pass piece
  | some (kind, lexeme) => (l.pass piece).emit (.scanned ⟨l.position, kind, lexeme⟩)

def behindAll (l : Lexer) (pieces : List Piece) : Lexer := pieces.foldl behind l

@[simp] theorem behindAll_nil (l : Lexer) : l.behindAll [] = l := rfl

@[simp] theorem behindAll_cons (l : Lexer) (piece : Piece) (pieces : List Piece) :
    l.behindAll (piece :: pieces) = (l.behind piece).behindAll pieces := rfl

theorem behindAll_append (l : Lexer) (pieces others : List Piece) :
    l.behindAll (pieces ++ others) = (l.behindAll pieces).behindAll others := List.foldl_append

theorem position_behind (l : Lexer) (piece : Piece) :
    (l.behind piece).position = l.position.advanceAll piece.text := by
  unfold behind pass
  split <;> split <;> rfl

theorem errorCount_behind (l : Lexer) (piece : Piece) :
    (l.behind piece).errorCount = l.errorCount + if piece.isFaulty then 1 else 0 := by
  rw [← piece.isSome_error? l.position]
  unfold behind pass
  split <;> split <;> next h => simp [h, report, emit]

theorem position_behindAll (l : Lexer) (pieces : List Piece) :
    (l.behindAll pieces).position = l.position.advanceAll (pieces.flatMap Piece.text) := by
  induction pieces generalizing l with
  | nil => rfl
  | cons piece pieces ih =>
    rw [behindAll_cons, ih, position_behind, List.flatMap_cons, Position.advanceAll_append]

theorem offset_behindAll (l : Lexer) (pieces : List Piece) :
    (l.behindAll pieces).position.offset = l.position.offset + (pieces.flatMap Piece.text).length := by
  rw [position_behindAll, Position.offset_advanceAll]

theorem errorCount_behindAll (l : Lexer) (pieces : List Piece) :
    (l.behindAll pieces).errorCount = l.errorCount + pieces.countP Piece.isFaulty := by
  induction pieces generalizing l with
  | nil => rfl
  | cons piece pieces ih =>
    rw [behindAll_cons, ih, errorCount_behind, List.countP_cons]
    omega

theorem pieces_behind (l : Lexer) (piece : Piece) : (l.behind piece).pieces = l.pieces := by
  unfold behind pass
  split <;> split <;> rfl

/-- The lexer with other pieces still to be scanned. -/
def facing (l : Lexer) (pieces : List Piece) : Lexer := { l with pieces := pieces }

@[simp] theorem pieces_facing (l : Lexer) (pieces : List Piece) : (l.facing pieces).pieces = pieces := rfl

@[simp] theorem position_facing (l : Lexer) (pieces : List Piece) : (l.facing pieces).position = l.position := rfl

@[simp] theorem errorCount_facing (l : Lexer) (pieces : List Piece) :
    (l.facing pieces).errorCount = l.errorCount := rfl

@[simp] theorem facing_facing (l : Lexer) (pieces others : List Piece) :
    (l.facing pieces).facing others = l.facing others := rfl

theorem behind_facing (l : Lexer) (pieces : List Piece) (piece : Piece) :
    (l.facing pieces).behind piece = (l.behind piece).facing pieces := by
  unfold behind pass facing
  cases piece.token? <;> dsimp only <;> cases piece.error? l.position <;> rfl

theorem behindAll_facing (l : Lexer) (pieces passed : List Piece) :
    (l.facing pieces).behindAll passed = (l.behindAll passed).facing pieces := by
  induction passed generalizing l with
  | nil => rfl
  | cons piece passed ih => rw [behindAll_cons, behind_facing, ih, behindAll_cons]

/-! ### One token -/

theorem nextAmong_gap {piece : Piece} (h : piece.token? = none) (l : Lexer) (pieces : List Piece) :
    l.nextAmong (piece :: pieces) = (l.behind piece).nextAmong pieces := by
  rw [nextAmong, behind]
  simp only [h]

theorem nextAmong_token {piece : Piece} {kind : TokenKind} {lexeme : String}
    (h : piece.token? = some (kind, lexeme)) (l : Lexer) (pieces : List Piece) :
    l.nextAmong (piece :: pieces) = (⟨l.position, kind, lexeme⟩, (l.behind piece).facing pieces) := by
  rw [nextAmong, behind]
  simp only [h]
  rfl

private theorem nextAmong_cases (l : Lexer) (pieces : List Piece) :
    ((∀ piece ∈ pieces, piece.token? = none) ∧
      l.nextAmong pieces = (.endOfFile (l.behindAll pieces).position, (l.behindAll pieces).facing [])) ∨
    ∃ gaps piece rest kind lexeme, pieces = gaps ++ piece :: rest ∧ (∀ gap ∈ gaps, gap.token? = none) ∧
      piece.token? = some (kind, lexeme) ∧
      l.nextAmong pieces =
        (⟨(l.behindAll gaps).position, kind, lexeme⟩, ((l.behindAll gaps).behind piece).facing rest) := by
  induction pieces generalizing l with
  | nil => exact .inl ⟨by simp, rfl⟩
  | cons piece pieces ih =>
    cases ht : piece.token? with
    | some t => exact .inr ⟨[], piece, pieces, t.1, t.2, rfl, by simp, ht, nextAmong_token ht l pieces⟩
    | none =>
      -- the piece is passed, and the token comes from what is behind it
      rw [nextAmong_gap ht]
      rcases ih (l.behind piece) with ⟨hgaps, hn⟩ | ⟨gaps, found, rest, kind, lexeme, rfl, hgaps, hf, hn⟩
      · exact .inl ⟨by simpa [ht] using hgaps, hn⟩
      · exact .inr ⟨piece :: gaps, found, rest, kind, lexeme, rfl, by simpa [ht] using hgaps, hf, hn⟩

/-- The next token comes from the first piece that stands for one; behind the last piece there is only the end of
the file. -/
theorem next_cases (l : Lexer) :
    ((∀ piece ∈ l.pieces, piece.token? = none) ∧
      l.next = (.endOfFile (l.behindAll l.pieces).position, (l.behindAll l.pieces).facing [])) ∨
    ∃ gaps piece rest kind lexeme, l.pieces = gaps ++ piece :: rest ∧ (∀ gap ∈ gaps, gap.token? = none) ∧
      piece.token? = some (kind, lexeme) ∧
      l.next = (⟨(l.behindAll gaps).position, kind, lexeme⟩, ((l.behindAll gaps).behind piece).facing rest) :=
  nextAmong_cases l l.pieces

/-- A token stands between where the lexer was and where it is then. -/
theorem offset_next (l : Lexer) :
    l.position.offset ≤ l.next.1.position.offset ∧ l.next.1.position.offset ≤ l.next.2.position.offset := by
  rcases l.next_cases with ⟨-, hn⟩ | ⟨gaps, piece, rest, kind, lexeme, -, -, -, hn⟩
  · have hoffset := l.offset_behindAll l.pieces
    rw [hn]
    simp only [position_facing, Token.endOfFile]
    omega
  · have hoffset := l.offset_behindAll gaps
    rw [hn]
    simp only [position_facing, position_behind, Position.offset_advanceAll]
    omega

/-- A lexical error is counted when its piece is passed. -/
theorem errorCount_next (l : Lexer) :
    l.next.2.errorCount + l.next.2.pieces.countP Piece.isFaulty =
      l.errorCount + l.pieces.countP Piece.isFaulty := by
  rcases l.next_cases with ⟨-, hn⟩ | ⟨gaps, piece, rest, kind, lexeme, hp, -, -, hn⟩
  · simp [hn, errorCount_behindAll]
  · simp only [hn, hp, errorCount_facing, pieces_facing, errorCount_behind, errorCount_behindAll,
      List.countP_append, List.countP_cons]
    omega

/-- Scanning leaves the end of what there was to be scanned. -/
theorem pieces_next_suffix (l : Lexer) : l.next.2.pieces <:+ l.pieces := by
  rcases l.next_cases with ⟨-, hn⟩ | ⟨gaps, piece, rest, kind, lexeme, hp, -, -, hn⟩
  · simp [hn]
  · rw [hn, hp]
    exact ⟨gaps ++ [piece], by simp⟩

/-- What one token keeps is kept by any number of them. -/
theorem nextMany_of_next {motive : Lexer → Prop} (next : ∀ l : Lexer, motive l → motive l.next.2) {l : Lexer}
    (h : motive l) (n : Nat) : motive (l.nextMany n).2 := by
  induction n generalizing l with
  | zero => exact h
  | succ n ih => exact ih (next l h)

/-! ### All tokens -/

/-- None of the pieces still to be scanned stands for the end of the file. -/
def Regular (l : Lexer) : Prop :=
  ∀ piece ∈ l.pieces, ∀ kind lexeme, piece.token? = some (kind, lexeme) → kind ≠ .endOfFile

theorem regular_ofSource (source : String) : (ofSource source).Regular := by
  intro piece hp kind lexeme ht
  obtain ⟨rest, hfits⟩ := Piece.exists_fits_of_mem_split hp
  exact hfits.kind_ne_endOfFile ht

theorem Regular.of_suffix {l l' : Lexer} (h : l.Regular) (hs : l'.pieces <:+ l.pieces) : l'.Regular :=
  fun piece hp => h piece (hs.subset hp)

/-- The end of the file comes when all is scanned. -/
theorem Regular.pieces_of_endOfFile {l : Lexer} (h : l.Regular) (he : l.next.1.kind = .endOfFile) :
    l.next.2.pieces = [] := by
  rcases l.next_cases with ⟨-, hn⟩ | ⟨gaps, piece, rest, kind, lexeme, hp, -, ht, hn⟩
  · rw [hn, pieces_facing]
  · rw [hn] at he
    exact absurd he (h piece (by simp [hp]) kind lexeme ht)

/-- What passes from the lexer behind a token to the lexer in front of it is true of all lexers. -/
@[elab_as_elim]
theorem next_induction {motive : Lexer → Prop}
    (next : ∀ l : Lexer, (l.next.1.kind ≠ .endOfFile → motive l.next.2) → motive l) (l : Lexer) : motive l := by
  induction hn : l.pieces.length using Nat.strongRecOn generalizing l with
  | ind n ih =>
    refine next l fun he => ?_
    have hlt : l.next.2.pieces.length < n := by
      have hle := l.next_pieces
      rw [if_neg he] at hle
      omega
    exact ih _ hlt _ rfl

private theorem tokenizeOnto_eq (found : List Token) (l : Lexer) :
    tokenizeOnto found l = (found.reverse ++ l.tokenize.1, l.tokenize.2) := by
  induction l using next_induction generalizing found with
  | next l ih =>
    rw [tokenize, tokenizeOnto.eq_def found l, tokenizeOnto.eq_def [] l]
    split
    · simp
    · next he =>
      rw [ih he, ih he [_]]
      simp

/-- Tokens are found one after the other, up to the end of the file. -/
theorem tokenize_next (l : Lexer) :
    l.tokenize =
      if l.next.1.kind = .endOfFile then ([l.next.1], l.next.2)
      else (l.next.1 :: l.next.2.tokenize.1, l.next.2.tokenize.2) := by
  rw [tokenize, tokenizeOnto]
  split
  · rfl
  · rw [tokenizeOnto_eq]
    rfl

/-- The tokens up to the end of the file come from the pieces, and all pieces are passed. -/
theorem Regular.tokenize_eq {l : Lexer} (h : l.Regular) :
    l.tokenize =
      (Piece.tokensFrom l.position l.pieces ++ [.endOfFile (l.behindAll l.pieces).position],
        (l.behindAll l.pieces).facing []) := by
  induction l using next_induction with
  | next l ih =>
    rw [tokenize_next]
    rcases l.next_cases with ⟨hgaps, hnext⟩ | ⟨gaps, piece, rest, kind, lexeme, hp, hgaps, ht, hnext⟩
    · -- only gaps are left, which end the list of tokens
      have hnil := Piece.tokensFrom_append_of_gaps hgaps l.position []
      rw [List.append_nil] at hnil
      have he : l.next.1.kind = .endOfFile := by rw [hnext]; rfl
      rw [if_pos he, hnext, hnil]
      rfl
    · have hkind : kind ≠ .endOfFile := h piece (by simp [hp]) kind lexeme ht
      have hrest : (((l.behindAll gaps).behind piece).facing rest).Regular :=
        h.of_suffix ⟨gaps ++ [piece], by simp [hp]⟩
      rw [hnext] at ih ⊢
      rw [if_neg hkind, ih hkind hrest, hp, Piece.tokensFrom_append_of_gaps hgaps, Piece.tokensFrom, ht,
        ← position_behindAll, ← position_behind]
      simp [behindAll_facing, behindAll_append]

end Lexer

end Clite
