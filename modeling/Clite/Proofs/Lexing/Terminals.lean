import Clite.Proofs.Lexing.Cutting
import Clite.Proofs.Lexing.Partition
import Clite.Proofs.Parsing.Grammar

/-!
# Kinds and lexemes

Which lexeme may stand with which kind (`Terminal.WellFormed`).  Every token that is scanned has such a lexeme, and
conversely a text with such a kind and lexeme can be written down (`Terminal.piece`).
-/

namespace Clite

/-- A letter, and letters and digits behind it. -/
def IsWord (x : String) : Prop := ∃ c s, x.toList = c :: s ∧ c.isAlpha ∧ ∀ d ∈ s, d.isAlphanum

/-- A word that is not reserved. -/
def IsName (x : String) : Prop := IsWord x ∧ ∀ k ∈ TokenKind.reserved, x ≠ k.text

namespace TokenKind

variable {k : TokenKind}

theorem isSymbol_iff : k.isSymbol = true ↔ (k.isOperator = true ∨ k = .assign) ∨ k.isPunctuation = true := by
  simp [isSymbol]

theorem symbolLexeme_of_operator (h : k.isOperator = true ∨ k = .assign) : k.symbolLexeme = k.text :=
  if_pos (by simpa using h)

theorem symbolLexeme_of_punctuation (h : k.isPunctuation = true) : k.symbolLexeme = "" := by
  cases k <;> first | rfl | cases h

/-- The table of reserved words has the word, or no reserved word is written like it. -/
theorem ofWord_cases (word : String) :
    (ofWord word ∈ reserved ∧ (ofWord word).text = word) ∨
      (ofWord word = identifier ∧ ∀ k ∈ reserved, word ≠ k.text) := by
  unfold ofWord
  cases hf : reserved.find? (·.text = word) with
  | none =>
    refine .inr ⟨rfl, fun k hk htext => ?_⟩
    simpa [htext] using List.find?_eq_none.1 hf k hk
  | some k => exact .inl ⟨List.mem_of_find?_eq_some hf, by simpa using List.find?_some hf⟩

end TokenKind

namespace Piece

/-- One letter needs no look-up: it is what the table says. -/
theorem wordKind_eq_ofWord (letters : List Char) : wordKind letters = .ofWord (String.ofList letters) := by
  unfold wordKind
  split
  · rfl
  · next hshort =>
    -- no reserved word has less than two letters
    have hlong : ∀ k ∈ TokenKind.reserved, 1 < k.text.toList.length := by decide
    rcases TokenKind.ofWord_cases (String.ofList letters) with ⟨hk, htext⟩ | ⟨hk, -⟩
    · have hlength := hlong _ hk
      rw [htext, String.toList_ofList] at hlength
      exact absurd hlength hshort
    · exact hk.symm

/-- A word is a reserved one, or it is an identifier and no reserved word is written like it. -/
theorem wordKind_cases (letters : List Char) :
    (wordKind letters ∈ TokenKind.reserved ∧ (wordKind letters).text = String.ofList letters) ∨
      (wordKind letters = .identifier ∧ ∀ k ∈ TokenKind.reserved, String.ofList letters ≠ k.text) := by
  rw [wordKind_eq_ofWord]
  exact TokenKind.ofWord_cases _

theorem wordKind_of_isName {x : String} (h : IsName x) : wordKind x.toList = .identifier := by
  rcases wordKind_cases x.toList with ⟨hk, htext⟩ | ⟨hk, -⟩
  · rw [String.ofList_toList] at htext
    exact absurd htext.symm (h.2 _ hk)
  · exact hk

theorem wordKind_of_mem_reserved : ∀ k ∈ TokenKind.reserved, wordKind k.text.toList = k := by decide

end Piece

theorem isWord_of_all {x : String} (h : (x.toList.head?.any Char.isAlpha && x.toList.all Char.isAlphanum) = true) :
    IsWord x := by
  cases hx : x.toList with
  | nil => simp [hx] at h
  | cons c s =>
    rw [hx] at h
    simp only [List.head?_cons, Option.any_some, Bool.and_eq_true, List.all_eq_true, List.forall_mem_cons] at h
    exact ⟨c, s, hx, h.1, h.2.2⟩

theorem isWord_of_mem_reserved {k : TokenKind} (h : k ∈ TokenKind.reserved) : IsWord k.text := by
  have hall : ∀ k ∈ TokenKind.reserved,
      (k.text.toList.head?.any Char.isAlpha && k.text.toList.all Char.isAlphanum) = true := by decide
  exact isWord_of_all (hall k h)

namespace Terminal

inductive WellFormed : Terminal → Prop
  | keyword {k : TokenKind} : k ∈ TokenKind.reserved → WellFormed (k, k.text)
  | operator {k : TokenKind} : k.isOperator ∨ k = .assign → WellFormed (k, k.text)
  | punctuation {k : TokenKind} : k.isPunctuation → WellFormed (k, "")
  | identifier {x : String} : IsName x → WellFormed (.identifier, x)
  | int {digits : List Char} :
    digits ≠ [] → (∀ c ∈ digits, c.isDigit) → WellFormed (.intLiteral, String.ofList digits)
  | float {whole fraction : List Char} :
    whole ≠ [] → (∀ c ∈ whole ++ fraction, c.isDigit) →
      WellFormed (.floatLiteral, String.ofList (whole ++ '.' :: fraction))
  | char {c : Char} : c ≠ '\'' → WellFormed (.charLiteral, String.singleton c)

/-- The text of a token of this kind with this lexeme; a character literal is closed. -/
def text (t : Terminal) : List Char := Token.span ⟨.unplaced, t.1, t.2⟩ true

/-- A piece that stands for a token of this kind with this lexeme. -/
def piece (t : Terminal) : Piece :=
  if t.1.isSymbol then .symbol t.1
  else
    match t.1 with
    | .intLiteral => .integer t.2.toList
    | .floatLiteral => .decimal (t.2.toList.takeWhile (· ≠ '.')) (t.2.toList.dropWhile (· ≠ '.')).tail
    | .charLiteral => .charLiteral (t.2.toList.headD ' ') true
    | _ => .word t.2.toList

/-- The text behind a token does not begin with a character that goes on with it. -/
def MayPrecede (t : Terminal) (rest : List Char) : Prop :=
  ∀ c ∈ rest.head?, if t.1.isSymbol then Piece.extension? t.1 ≠ some c else c.isAlphanum = false ∧ c ≠ '.'

/-- The piece stands for the token, is written like the token, and fits where the token may stand. -/
structure Writes (t : Terminal) (piece : Piece) : Prop where
  token : piece.token? = some t
  text : piece.text = t.text
  fits {rest : List Char} : t.MayPrecede rest → piece.Fits rest

private theorem eq_of_extension? {k : TokenKind} {c : Char} (h : Piece.extension? k = some c) :
    c = '=' ∨ k = .operator .div ∧ c = '/' := by
  unfold Piece.extension? at h
  split at h <;> cases h
  case h_5 => exact .inr ⟨rfl, rfl⟩
  all_goals exact .inl rfl

/-- A blank goes on with no token, and the slash of a comment only with another slash. -/
theorem mayPrecede_of_layout {t : Terminal} {rest : List Char}
    (h : ∀ c ∈ rest.head?, Piece.isBlank c ∨ c = '/' ∧ t.1 ≠ .operator .div) : t.MayPrecede rest := by
  intro c hc
  have hhead : c.isAlphanum = false ∧ c ≠ '.' ∧ c ≠ '=' ∧ (t.1 = .operator .div → c ≠ '/') := by
    rcases h c hc with hblank | ⟨rfl, hdiv⟩
    · rcases Piece.eq_of_isBlank hblank with rfl | rfl | rfl | rfl <;>
        exact ⟨rfl, by decide, by decide, fun _ => by decide⟩
    · exact ⟨rfl, by decide, by decide, fun h => absurd h hdiv⟩
  obtain ⟨halphanum, hpoint, hequals, hslash⟩ := hhead
  split
  · intro hext
    rcases eq_of_extension? hext with rfl | ⟨hk, rfl⟩
    · exact hequals rfl
    · exact hslash hk rfl
  · exact ⟨halphanum, hpoint⟩

/-- Behind a word or a number. -/
private theorem MayPrecede.head {t : Terminal} (ht : t.1.isSymbol = false) {rest : List Char} (h : t.MayPrecede rest)
    {c : Char} (hc : c ∈ rest.head?) : c.isAlphanum = false ∧ c.isDigit = false ∧ c ≠ '.' := by
  have hcond := h c hc
  rw [if_neg (by simp [ht])] at hcond
  obtain ⟨halphanum, hpoint⟩ := hcond
  have hdigit : c.isDigit = false := (Bool.or_eq_false_iff.1 halphanum).2
  exact ⟨halphanum, hdigit, hpoint⟩

private theorem writes_word {x : String} (h : IsWord x) {k : TokenKind} (hk : Piece.wordKind x.toList = k) :
    Writes (k, x) (.word x.toList) := by
  have hmem := Piece.wordKind_mem x.toList
  rw [hk] at hmem
  have hspan : ∀ k ∈ TokenKind.identifier :: TokenKind.reserved,
      k.isPunctuation = false ∧ k ≠ .charLiteral ∧ k.isSymbol = false := by decide
  refine ⟨by simp [Piece.token?, hk], by simp [Piece.text, text, Token.span, hspan k hmem], fun hrest => ?_⟩
  obtain ⟨c, s, hx, hc, hs⟩ := h
  refine ⟨⟨c, s, hx, hc⟩, ?_, fun d hd => by simp [(hrest.head (hspan k hmem).2.2 hd).1]⟩
  rw [hx, List.forall_mem_cons]
  exact ⟨by simp [Char.isAlphanum, hc], hs⟩

private theorem writes_symbol {k : TokenKind} (h : k.isSymbol) : Writes (k, k.symbolLexeme) (.symbol k) := by
  refine ⟨rfl, ?_, fun hrest => ⟨h, fun c hc hext => ?_⟩⟩
  · cases k with
    | operator op => cases op <;> rfl
    | _ => first | rfl | cases h
  · have hcond := hrest c hc
    rw [if_pos h] at hcond
    exact hcond hext

private theorem piece_word {k : TokenKind} (h : k ∈ TokenKind.identifier :: TokenKind.reserved) (x : String) :
    piece (k, x) = .word x.toList := by
  have hnot : ∀ k ∈ TokenKind.identifier :: TokenKind.reserved,
      k.isSymbol = false ∧ k.isLiteral = false := by decide
  obtain ⟨hsymbol, hliteral⟩ := hnot k h
  rw [piece, if_neg (by simp [hsymbol])]
  cases k with
  | intLiteral | floatLiteral | charLiteral => cases hliteral
  | _ => rfl

private theorem writes_integer {digits : List Char} (hne : digits ≠ []) (hdigits : ∀ c ∈ digits, c.isDigit) :
    Writes (.intLiteral, String.ofList digits) (.integer digits) := by
  refine ⟨rfl, by simp [Piece.text, text, Token.span, TokenKind.isPunctuation], fun hrest => ⟨hne, hdigits, ?_⟩⟩
  intro c hc
  obtain ⟨-, hdigit, hpoint⟩ := hrest.head rfl hc
  exact ⟨by simp [hdigit], hpoint⟩

private theorem writes_decimal {whole fraction : List Char} (hne : whole ≠ [])
    (hdigits : ∀ c ∈ whole ++ fraction, c.isDigit) :
    Writes (.floatLiteral, String.ofList (whole ++ '.' :: fraction)) (.decimal whole fraction) := by
  refine ⟨rfl, by simp [Piece.text, text, Token.span, TokenKind.isPunctuation], fun hrest => ⟨hne, hdigits, ?_⟩⟩
  intro c hc
  simp [(hrest.head rfl hc).2.1]

private theorem takeWhile_point {whole : List Char} (h : ∀ c ∈ whole, c.isDigit) (fraction : List Char) :
    (whole ++ '.' :: fraction).takeWhile (· ≠ '.') = whole ∧
      ((whole ++ '.' :: fraction).dropWhile (· ≠ '.')).tail = fraction := by
  have hne : ∀ c ∈ whole, decide (c ≠ '.') = true := by
    intro c hc
    refine decide_eq_true fun hpoint => ?_
    subst hpoint
    exact absurd (h _ hc) (by decide)
  rw [List.takeWhile_append_of_pos hne, List.dropWhile_append_of_pos hne]
  simp

/-- A kind and a lexeme that go together can be written down. -/
theorem WellFormed.writes {t : Terminal} (h : WellFormed t) : t.Writes t.piece := by
  cases h with
  | keyword hk =>
    rw [piece_word (List.mem_cons_of_mem _ hk)]
    exact writes_word (isWord_of_mem_reserved hk) (Piece.wordKind_of_mem_reserved _ hk)
  | operator hk =>
    have hsymbol := TokenKind.isSymbol_iff.2 (.inl hk)
    rw [piece, if_pos hsymbol, ← TokenKind.symbolLexeme_of_operator hk]
    exact writes_symbol hsymbol
  | punctuation hk =>
    have hsymbol := TokenKind.isSymbol_iff.2 (.inr hk)
    rw [piece, if_pos hsymbol, ← TokenKind.symbolLexeme_of_punctuation hk]
    exact writes_symbol hsymbol
  | identifier hx =>
    rw [piece_word List.mem_cons_self]
    exact writes_word hx.1 (Piece.wordKind_of_isName hx)
  | @int digits hne hdigits =>
    have hpiece : piece (.intLiteral, String.ofList digits) = .integer digits := by
      simp [piece, TokenKind.isSymbol, TokenKind.isOperator, TokenKind.isPunctuation]
    rw [hpiece]
    exact writes_integer hne hdigits
  | @float whole fraction hne hdigits =>
    obtain ⟨hwhole, hfraction⟩ := takeWhile_point (fun c hc => hdigits c (List.mem_append_left _ hc)) fraction
    have hpiece (s : String) : piece (.floatLiteral, s) =
        .decimal (s.toList.takeWhile (· ≠ '.')) (s.toList.dropWhile (· ≠ '.')).tail := rfl
    rw [hpiece, String.toList_ofList, hwhole, hfraction]
    exact writes_decimal hne hdigits
  | @char c hc =>
    have hpiece : piece (.charLiteral, String.singleton c) = .charLiteral c true := by
      simp [piece, TokenKind.isSymbol, TokenKind.isOperator, TokenKind.isPunctuation]
    rw [hpiece]
    exact ⟨rfl, by simp [Piece.text, text, Token.span, TokenKind.isPunctuation], fun _ => hc⟩

/-- A piece that is written is not at fault. -/
theorem isFaulty_piece (t : Terminal) : t.piece.isFaulty = false := by
  unfold piece
  split
  · rfl
  · split <;> rfl

end Terminal

/-! ### Texts of several tokens -/

/-- In front of `rest` the text `s` is scanned as the terminals `w`, and nothing in it is at fault. -/
def Scans (s : List Char) (w : List Terminal) (rest : List Char) : Prop :=
  ∃ pieces, Piece.split (s ++ rest) = pieces ++ Piece.split rest ∧ pieces.filterMap Piece.token? = w ∧
    ∀ piece ∈ pieces, piece.isFaulty = false

theorem Scans.append {s s' rest : List Char} {w w' : List Terminal} (h : Scans s w (s' ++ rest))
    (h' : Scans s' w' rest) : Scans (s ++ s') (w ++ w') rest := by
  obtain ⟨pieces, hsplit, rfl, hpieces⟩ := h
  obtain ⟨pieces', hsplit', rfl, hpieces'⟩ := h'
  refine ⟨pieces ++ pieces', ?_, List.filterMap_append, List.forall_mem_append.2 ⟨hpieces, hpieces'⟩⟩
  rw [List.append_assoc, hsplit, hsplit', List.append_assoc]

theorem scans_blank {c : Char} (h : Piece.isBlank c) (rest : List Char) : Scans [c] [] rest := by
  have hfits : (Piece.blank c).Fits rest := h
  exact ⟨[.blank c], hfits.split_append, rfl, by simp [Piece.isFaulty]⟩

theorem Terminal.WellFormed.scans {t : Terminal} (h : t.WellFormed) {rest : List Char} (hrest : t.MayPrecede rest) :
    Scans t.text [t] rest := by
  have hwrites := h.writes
  refine ⟨[t.piece], ?_, by simp [hwrites.token], by simp [t.isFaulty_piece]⟩
  rw [← hwrites.text]
  exact (hwrites.fits hrest).split_append

/-! ### Scanned tokens -/

/-- A piece of a text stands for a kind and a lexeme that go together. -/
theorem Piece.Fits.wellFormed {piece : Piece} {rest : List Char} (h : piece.Fits rest) {t : Terminal}
    (ht : piece.token? = some t) : t.WellFormed := by
  cases piece with
  | word letters =>
    obtain ⟨⟨c, s, rfl, hc⟩, hletters, -⟩ := h
    obtain rfl := Option.some.inj ht
    have hword : IsWord (String.ofList (c :: s)) :=
      ⟨c, s, String.toList_ofList, hc, fun d hd => hletters d (List.mem_cons_of_mem _ hd)⟩
    rcases wordKind_cases (c :: s) with ⟨hk, htext⟩ | ⟨hk, hnot⟩
    · rw [← htext]
      exact .keyword hk
    · rw [hk]
      exact .identifier ⟨hword, hnot⟩
  | integer digits => obtain rfl := Option.some.inj ht; exact .int h.1 h.2.1
  | decimal whole fraction => obtain rfl := Option.some.inj ht; exact .float h.1 h.2.1
  | symbol kind =>
    obtain rfl := Option.some.inj ht
    rcases TokenKind.isSymbol_iff.1 h.1 with hk | hk
    · rw [TokenKind.symbolLexeme_of_operator hk]
      exact .operator hk
    · rw [TokenKind.symbolLexeme_of_punctuation hk]
      exact .punctuation hk
  | charLiteral c closed =>
    obtain rfl := Option.some.inj ht
    cases closed with
    | true => exact .char h
    | false => exact .char h.1
  | blank | comment | rejected => cases ht

end Clite
