import Clite.Proofs.Lexing.Reports
import Clite.Proofs.Lexing.Terminals

/-!
# Tokens are as long as they can be

A token ends only where the text does not go on with it (`TokenKind.goesOn`): behind a word there is no letter and no
digit, behind a number no digit, and behind a symbol no character that makes a longer symbol of it or a comment.  Which
words are keywords is told by the table of reserved words alone.
-/

namespace Clite

namespace TokenKind

/-- Would the character be read as part of a token of this kind? -/
def goesOn (k : TokenKind) (c : Char) : Bool :=
  match k with
  | identifier | typeName _ | truth _ | ifWord | elseWord | whileWord | mainWord => c.isAlphanum
  | intLiteral => c.isDigit || c = '.'
  | floatLiteral => c.isDigit
  | assign | operator .less | operator .greater | bang => c = '='
  | operator .div => c = '/'
  | _ => false

/-- The kinds of words. -/
def words : List TokenKind := identifier :: reserved

variable {k : TokenKind}

theorem goesOn_of_mem_words (h : k ∈ words) (c : Char) : k.goesOn c = c.isAlphanum := by
  simp only [words, reserved, List.mem_cons, List.not_mem_nil, or_false] at h
  rcases h with rfl | rfl | rfl | rfl | rfl | rfl | rfl | rfl | rfl | rfl | rfl <;> rfl

theorem notMem_words (h : (k.isSymbol || k.isLiteral) = true) : k ∉ words := by
  have hnot : ∀ k ∈ words, (k.isSymbol || k.isLiteral) = false := by decide
  intro hmem
  simp [hnot k hmem] at h

theorem goesOn_of_isSymbol (h : k.isSymbol) {c : Char} (hc : k.goesOn c) : Piece.extension? k = some c := by
  cases k with
  | operator op => cases op <;> simp_all [goesOn, Piece.extension?]
  | typeName | truth | ifWord | elseWord | whileWord | mainWord | identifier | intLiteral | floatLiteral => cases h
  | _ => simp_all [goesOn, Piece.extension?]

theorem ofWord_mem_words (word : String) : ofWord word ∈ words := by
  rcases ofWord_cases word with ⟨hmem, -⟩ | ⟨hident, -⟩
  · exact List.mem_cons_of_mem _ hmem
  · simp [hident, words]

/-- The reserved words are written in different ways. -/
theorem eq_of_text_eq : ∀ k ∈ reserved, ∀ k' ∈ reserved, k.text = k'.text → k = k' := by decide

/-- A word is the keyword that it spells, and no other one. -/
theorem ofWord_eq_iff (h : k ∈ reserved) (word : String) : ofWord word = k ↔ word = k.text := by
  rcases ofWord_cases word with ⟨hmem, htext⟩ | ⟨hident, hnone⟩
  · constructor
    · intro hk
      rw [← hk, htext]
    · intro hword
      exact eq_of_text_eq _ hmem _ h (htext.trans hword)
  · have hne : identifier ≠ k := by
      rintro rfl
      exact absurd h (by decide)
    simp [hident, hne, hnone k h]

/-- A word is an identifier when it spells no keyword. -/
theorem ofWord_eq_identifier_iff (word : String) :
    ofWord word = identifier ↔ ∀ k ∈ reserved, word ≠ k.text := by
  rcases ofWord_cases word with ⟨hmem, htext⟩ | ⟨hident, hnone⟩
  · constructor
    · intro hk
      rw [hk] at hmem
      exact absurd hmem (by decide)
    · intro hnone
      exact absurd htext.symm (hnone _ hmem)
  · simp only [hident, true_iff]
    exact hnone

end TokenKind

/-- Does the text of the token begin with a letter? -/
def Token.IsWord (t : Token) : Prop := ∃ c s, t.span true = c :: s ∧ c.isAlpha

/-- Symbols do not begin with a letter. -/
private theorem isAlpha_head_symbol {k : TokenKind} (h : k.isSymbol) {c : Char} {s : List Char}
    (hs : k.text.toList = c :: s) : c.isAlpha = false := by
  cases k with
  | operator op => cases op <;> cases hs <;> rfl
  | _ => cases h <;> cases hs <;> rfl

namespace Piece

variable {piece : Piece} {rest : List Char} {start : Position} {t : Token} {closed : Bool}

/-- The text behind a piece does not go on with its token. -/
theorem Fits.goesOn_eq_false (h : piece.Fits rest) (ht : piece.stretch start = .token t closed) :
    ∀ c ∈ rest.head?, t.kind.goesOn c = false := by
  intro c hc
  cases piece with
  | blank | comment | rejected => cases ht
  | word letters =>
    cases ht
    have hstop : c.isAlphanum = false := by simpa using h.2.2 c hc
    rw [TokenKind.goesOn_of_mem_words (wordKind_mem letters), hstop]
  | integer digits =>
    cases ht
    have hstop : c.isDigit = false ∧ c ≠ '.' := by simpa using h.2.2 c hc
    simp [TokenKind.goesOn, hstop]
  | decimal whole fraction =>
    cases ht
    have hstop : c.isDigit = false := by simpa using h.2.2 c hc
    simp [TokenKind.goesOn, hstop]
  | symbol kind =>
    cases ht
    by_cases hgoes : kind.goesOn c = true
    · exact absurd (TokenKind.goesOn_of_isSymbol h.1 hgoes) (h.2 c hc)
    · simpa using hgoes
  | charLiteral => cases ht; rfl

/-- A token that begins with a letter has the kind that the table of reserved words tells; no other token has such a
kind. -/
theorem Fits.word_cases (h : piece.Fits rest) (ht : piece.stretch start = .token t closed) :
    (t.IsWord ∧ t.kind = .ofWord t.lexeme) ∨ (¬ t.IsWord ∧ t.kind ∉ TokenKind.words) := by
  have htext := h.text_stretch start
  cases piece with
  | blank | comment | rejected => cases ht
  | word letters =>
    cases ht
    obtain ⟨⟨c, s, rfl, hc⟩, -⟩ := h
    exact .inl ⟨⟨c, s, htext, hc⟩, wordKind_eq_ofWord _⟩
  | integer digits =>
    cases ht
    refine .inr ⟨?_, TokenKind.notMem_words rfl⟩
    intro ⟨c, s, hspan, hc⟩
    have hdigits : digits = c :: s := htext.symm.trans hspan
    have hdigit : c.isDigit := h.2.1 c (by simp [hdigits])
    simp [isAlpha_eq_false hdigit] at hc
  | decimal whole fraction =>
    cases ht
    refine .inr ⟨?_, TokenKind.notMem_words rfl⟩
    intro ⟨c, s, hspan, hc⟩
    obtain ⟨d, ds, rfl⟩ := List.exists_cons_of_ne_nil h.1
    obtain rfl : d = c := (List.cons.inj (htext.symm.trans hspan)).1
    have hdigit : d.isDigit := h.2.1 d (by simp)
    simp [isAlpha_eq_false hdigit] at hc
  | symbol kind =>
    cases ht
    refine .inr ⟨?_, TokenKind.notMem_words (by simp [h.1])⟩
    intro ⟨c, s, hspan, hc⟩
    simp [isAlpha_head_symbol h.1 (htext.symm.trans hspan)] at hc
  | charLiteral c closed =>
    cases ht
    refine .inr ⟨?_, TokenKind.notMem_words rfl⟩
    intro ⟨d, s, hspan, hd⟩
    cases hspan
    exact absurd hd (by decide)

end Piece

/-- A stretch with a token is what that token takes up. -/
theorem Stretch.eq_token_of_token? {x : Stretch} {t : Token} (h : x.token? = some t) :
    ∃ closed, x = .token t closed := by
  cases x with
  | token t' closed =>
    obtain rfl : t' = t := Option.some.inj h
    exact ⟨closed, rfl⟩
  | gap g => cases h

namespace Lexer

/-- A token of a text is the end of the file, or it is the token of a piece, and behind what it takes up there is a text
that the piece fits in front of. -/
theorem mem_tokenize_cases {source : String} {t : Token} (h : t ∈ (ofSource source).tokenize.1) :
    t = .endOfFile (Position.start.advanceAll source.toList) ∨
      ∃ (piece : Piece) (start : Position) (closed : Bool) (before after : List Char),
        piece.stretch start = .token t closed ∧ piece.Fits after ∧
        source.toList = before ++ t.span closed ++ after ∧ before.length = t.position.offset ∧
        (closed = false → t.kind = .charLiteral) := by
  rw [tokens_tokenize, ← Piece.filterMap_token?_stretchesFrom] at h
  rcases List.mem_append.1 h with h | h
  · obtain ⟨x, hx, htoken⟩ := List.mem_filterMap.1 h
    obtain ⟨closed, rfl⟩ := Stretch.eq_token_of_token? htoken
    obtain ⟨before, after, hsplit⟩ := List.append_of_mem hx
    obtain ⟨piece, hpiece, hfits⟩ := Piece.exists_fits_of_stretchesFrom_split hsplit
    obtain ⟨hoffset, -, -, hclosed⟩ := Piece.standsAt_of_stretchesFrom_split hsplit
    have htext : source.toList =
        before.flatMap Stretch.text ++ t.span closed ++ after.flatMap Stretch.text := by
      rw [← Piece.flatMap_text_stretchesFrom_split .start source.toList, hsplit]
      simp [Stretch.text]
    refine .inr ⟨piece, _, closed, _, _, hpiece, hfits, htext, ?_, fun hc => (hclosed hc).1⟩
    rw [hoffset]
    exact (Nat.zero_add _).symm
  · exact .inl (by simpa using h)

/-- Every token of a text is maximal: the text does not go on with it behind what the token takes up.  A token that
begins with a letter is a keyword when its lexeme is the text of that keyword and an identifier when its lexeme is not
reserved; and a single letter, which is not looked up, would not be found. -/
theorem tokens_are_maximal (source : String) :
    (∀ t ∈ (ofSource source).tokenize.1,
      (∃ closed before after, source.toList = before ++ t.span closed ++ after ∧
        before.length = t.position.offset ∧ (closed = false → t.kind = .charLiteral) ∧
        ∀ c ∈ after.head?, t.kind.goesOn c = false) ∧
      (t.IsWord ↔ t.kind ∈ TokenKind.words) ∧
      (t.IsWord →
        (∀ k ∈ TokenKind.reserved, t.kind = k ↔ t.lexeme = k.text) ∧
        (t.kind = .identifier ↔ ∀ k ∈ TokenKind.reserved, t.lexeme ≠ k.text))) ∧
    ∀ letters, Piece.wordKind letters = .ofWord (String.ofList letters) := by
  refine ⟨?_, Piece.wordKind_eq_ofWord⟩
  intro t ht
  rcases mem_tokenize_cases ht with
    rfl | ⟨piece, start, closed, before, after, hpiece, hfits, htext, hoffset, hclosed⟩
  · -- the end of the file takes up nothing
    have hspan : (Token.endOfFile (Position.start.advanceAll source.toList)).span true = [] := rfl
    have hoffset : source.toList.length = (Position.start.advanceAll source.toList).offset :=
      (Position.offset_advanceAll_start _).symm
    have hword : ¬ (Token.endOfFile (Position.start.advanceAll source.toList)).IsWord := nofun
    have hkind : TokenKind.endOfFile ∉ TokenKind.words := by decide
    refine ⟨⟨true, source.toList, [], ?_, hoffset, nofun, nofun⟩, iff_of_false hword hkind, fun h => absurd h hword⟩
    rw [hspan, List.append_nil, List.append_nil]
  · refine ⟨⟨closed, before, after, htext, hoffset, hclosed, hfits.goesOn_eq_false hpiece⟩, ?_⟩
    rcases hfits.word_cases hpiece with ⟨hword, hkind⟩ | ⟨hword, hkind⟩
    · rw [hkind]
      refine ⟨iff_of_true hword (TokenKind.ofWord_mem_words _), fun _ => ⟨?_, TokenKind.ofWord_eq_identifier_iff _⟩⟩
      intro k hk
      exact TokenKind.ofWord_eq_iff hk _
    · exact ⟨iff_of_false hword hkind, fun h => absurd h hword⟩

/-- The word goes on behind the keyword that it begins with, up to the symbol. -/
theorem tokens_are_maximal_run_together :
    let t : Token := ⟨⟨4, 1, 5⟩, .identifier, "if2"⟩
    t ∈ (ofSource "1.5.if2<==/'/").tokenize.1 ∧ t.IsWord ∧
      (t.kind = .identifier ↔ ∀ k ∈ TokenKind.reserved, t.lexeme ≠ k.text) := by
  intro t
  have hmem : t ∈ (ofSource "1.5.if2<==/'/").tokenize.1 := by decide +kernel
  have hword : t.IsWord := ⟨'i', ['f', '2'], by decide +kernel, by decide⟩
  obtain ⟨-, -, hkind⟩ := (tokens_are_maximal "1.5.if2<==/'/").1 t hmem
  exact ⟨hmem, hword, (hkind hword).2⟩

end Lexer

end Clite
