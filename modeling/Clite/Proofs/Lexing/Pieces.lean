import Clite.Token.Piece
import Mathlib.Data.List.TakeWhile

/-!
# What the pieces of a text look like

A piece ends where the text behind it no longer goes on with it.  `Piece.Fits` says for each kind of piece what
it is made of and what may stand behind it, and every piece that is cut off fits in front of the text that is
left (`fits_first`).
-/

namespace Clite

def TokenKind.isPunctuation : TokenKind → Bool
  | leftBrace | rightBrace | leftBracket | rightBracket | leftParen | rightParen | semicolon | comma => true
  | _ => false

/-- The kinds that are written with symbols: operators, `=` and punctuation. -/
def TokenKind.isSymbol (kind : TokenKind) : Bool := kind.isOperator || kind = assign || kind.isPunctuation

/-- Does a token begin with this character? -/
def StartsToken (c : Char) : Prop :=
  c.isAlpha ∨ c.isDigit ∨ c = '\'' ∨ ∃ kind : TokenKind, kind.isSymbol ∧ kind.text.toList.head? = some c

namespace Piece

/-- The character that would go on with a symbol. -/
def extension? : TokenKind → Option Char
  | .assign | .operator .less | .operator .greater | .bang => some '='
  | .operator .div => some '/'
  | _ => none

/-- What is true of a piece that is cut off in front of the text `rest`. -/
def Fits (piece : Piece) (rest : List Char) : Prop :=
  match piece with
  | blank c => isBlank c
  | comment body => '\n' ∉ body ∧ ∀ c ∈ rest.head?, c = '\n'
  | word letters =>
    (∃ c s, letters = c :: s ∧ c.isAlpha) ∧ (∀ c ∈ letters, c.isAlphanum) ∧ ∀ c ∈ rest.head?, !c.isAlphanum
  | integer digits =>
    digits ≠ [] ∧ (∀ c ∈ digits, c.isDigit) ∧ ∀ c ∈ rest.head?, !c.isDigit ∧ c ≠ '.'
  | decimal whole fraction =>
    whole ≠ [] ∧ (∀ c ∈ whole ++ fraction, c.isDigit) ∧ ∀ c ∈ rest.head?, !c.isDigit
  | symbol kind => kind.isSymbol ∧ ∀ c ∈ rest.head?, extension? kind ≠ some c
  | charLiteral c true => c ≠ '\''
  | charLiteral c false => c ≠ '\'' ∧ rest.head? ≠ some '\''
  | rejected (.illegal c) => ¬ isBlank c ∧ ¬ StartsToken c
  | rejected (.lone c) => (c = '&' ∨ c = '|') ∧ rest.head? ≠ some c
  | rejected .emptyLiteral => True
  | rejected .openLiteral => rest = []

/-! ### Each kind of piece fits -/

private theorem head_dropWhile {p : Char → Bool} {s : List Char} {c : Char}
    (h : c ∈ (s.dropWhile p).head?) : p c = false := by
  have hnot := List.head?_dropWhile_not p s
  rw [Option.mem_def.1 h] at hnot
  simpa using hnot

private theorem fits_word {c : Char} (hc : c.isAlpha) (rest : List Char) :
    (word (c :: rest.takeWhile Char.isAlphanum)).Fits (rest.dropWhile Char.isAlphanum) := by
  refine ⟨⟨c, _, rfl, hc⟩, ?_, ?_⟩
  · intro d hd
    rcases List.mem_cons.1 hd with rfl | hd
    · simp [Char.isAlphanum, hc]
    · exact List.mem_takeWhile_imp hd
  · intro d hd
    simp [head_dropWhile hd]

private theorem fits_number {c : Char} (hc : c.isDigit) (rest : List Char) :
    (number c rest).1.Fits (number c rest).2 := by
  have hwhole : ∀ d ∈ c :: rest.takeWhile Char.isDigit, d.isDigit = true := by
    intro d hd
    rcases List.mem_cons.1 hd with rfl | hd
    · exact hc
    · exact List.mem_takeWhile_imp hd
  unfold number
  split
  · next after hd =>
    refine ⟨by simp, ?_, ?_⟩
    · intro d hd
      rcases List.mem_append.1 hd with hd | hd
      · exact hwhole d hd
      · exact List.mem_takeWhile_imp hd
    · intro d hd
      simp [head_dropWhile hd]
  · next hdot =>
    refine ⟨by simp, hwhole, ?_⟩
    intro d hd
    refine ⟨by simp [head_dropWhile hd], ?_⟩
    rintro rfl
    obtain ⟨after, hafter⟩ := List.head?_eq_some_iff.1 hd
    exact hdot after hafter

private theorem fits_quoted (rest : List Char) : (quoted rest).1.Fits (quoted rest).2 := by
  unfold quoted
  split
  · rfl
  · trivial
  · next c rest hc => exact fun h => hc h
  · next c rest hc hquote =>
    refine ⟨fun h => hc h, fun h => ?_⟩
    obtain ⟨after, rfl⟩ := List.head?_eq_some_iff.1 h
    exact hquote after rfl

private theorem fits_either {second : Char} {longer shorter : TokenKind} (hl : longer.isSymbol)
    (hle : extension? longer = none) (hs : shorter.isSymbol) (hse : extension? shorter = some second)
    (rest : List Char) :
    (either second longer shorter rest).1.Fits (either second longer shorter rest).2 := by
  unfold either
  split
  · exact ⟨hs, by simp⟩
  · next c rest =>
    split
    · exact ⟨hl, by simp [hle]⟩
    · next hc =>
      refine ⟨hs, ?_⟩
      simpa [hse] using fun h => hc h.symm

private theorem fits_doubled {c : Char} {op : BinaryOp} (hc : c = '&' ∨ c = '|')
    (hop : extension? (.operator op) = none) (rest : List Char) :
    (doubled c op rest).1.Fits (doubled c op rest).2 := by
  unfold doubled
  split
  · exact ⟨hc, by simp⟩
  · next d rest =>
    split
    · exact ⟨rfl, by simp [hop]⟩
    · next hd => exact ⟨hc, by simpa using hd⟩

private theorem fits_slash (rest : List Char) : (slash rest).1.Fits (slash rest).2 := by
  unfold slash
  split
  · next rest =>
    refine ⟨fun h => by simpa using List.mem_takeWhile_imp h, ?_⟩
    intro c hc
    simpa using head_dropWhile hc
  · next hslash =>
    refine ⟨rfl, ?_⟩
    rintro c hc h
    obtain ⟨after, hafter⟩ := List.head?_eq_some_iff.1 hc
    obtain rfl : '/' = c := Option.some.inj h
    exact hslash after hafter

private theorem fits_mark {c : Char} (hb : isBlank c = false) (ha : c.isAlpha = false) (hd : c.isDigit = false)
    (hq : c ≠ '\'') (rest : List Char) : (mark c rest).1.Fits (mark c rest).2 := by
  unfold mark
  split
  case h_12 => exact fits_slash rest
  case h_13 | h_14 | h_15 | h_16 => exact fits_either rfl rfl rfl rfl rest
  case h_17 => exact fits_doubled (.inl rfl) rfl rest
  case h_18 => exact fits_doubled (.inr rfl) rfl rest
  case h_19 =>
    -- none of the symbols begins with the character
    refine ⟨by simp [hb], ?_⟩
    rintro (h | h | h | ⟨kind, hk, hc⟩)
    · simp [ha] at h
    · simp [hd] at h
    · exact hq h
    · cases kind with
      | operator op => cases op <;> cases hc <;> contradiction
      | _ => cases hk <;> cases hc <;> contradiction
  all_goals exact ⟨rfl, by simp [extension?]⟩

/-- A piece that is cut off fits in front of what is left. -/
theorem fits_first (c : Char) (rest : List Char) : (first c rest).1.Fits (first c rest).2 := by
  unfold first
  split
  · next h => exact h
  split
  · next h => exact fits_word h rest
  split
  · next h => exact fits_number h rest
  split
  · exact fits_quoted rest
  · exact fits_mark (by simp_all) (by simp_all) (by simp_all) ‹_› rest

/-- The piece that is cut off takes up some of the text. -/
theorem text_first_ne_nil (c : Char) (rest : List Char) : (first c rest).1.text ≠ [] := by
  intro hnil
  have htext := congrArg List.length (text_first c rest)
  have hle := (suffix_first c rest).length_le
  rw [hnil, List.nil_append, List.length_cons] at htext
  omega

/-- What passes from the text behind the first piece to the whole text is true of all texts. -/
@[elab_as_elim]
theorem split_induction {motive : List Char → Prop} (nil : motive [])
    (cons : ∀ c rest, motive (first c rest).2 → motive (c :: rest)) (s : List Char) : motive s := by
  induction hn : s.length using Nat.strongRecOn generalizing s with
  | ind n ih =>
    cases s with
    | nil => exact nil
    | cons c rest =>
      have hlt : (first c rest).2.length < n := hn ▸ Nat.lt_succ_of_le (suffix_first c rest).length_le
      exact cons c rest (ih _ hlt _ rfl)

/-- Every piece of a text fits in front of some text. -/
theorem exists_fits_of_mem_split {piece : Piece} {s : List Char} (h : piece ∈ split s) :
    ∃ rest, piece.Fits rest := by
  induction s using split_induction with
  | nil => simp at h
  | cons c rest ih =>
    rw [split_cons] at h
    rcases List.mem_cons.1 h with rfl | h
    · exact ⟨_, fits_first c rest⟩
    · exact ih h

/-- The pieces of a text make it up. -/
theorem flatMap_text_split (s : List Char) : (split s).flatMap text = s := by
  induction s using split_induction with
  | nil => simp
  | cons c rest ih => rw [split_cons, List.flatMap_cons, ih, text_first]

/-! ### Pieces and tokens -/

/-- Is something wrong with the piece? -/
def isFaulty : Piece → Bool
  | rejected _ | charLiteral _ false => true
  | _ => false

theorem isSome_error? (start : Position) (piece : Piece) : (piece.error? start).isSome = piece.isFaulty := by
  unfold error? isFaulty
  split <;> simp

/-- A word is an identifier or reserved. -/
theorem wordKind_mem (letters : List Char) : wordKind letters ∈ TokenKind.identifier :: TokenKind.reserved := by
  unfold wordKind TokenKind.ofWord
  split
  · cases hf : TokenKind.reserved.find? (·.text = String.ofList letters) with
    | none => simp
    | some kind => exact List.mem_cons_of_mem _ (List.mem_of_find?_eq_some hf)
  · simp

/-- No piece of a text stands for the end of the file. -/
theorem Fits.kind_ne_endOfFile {piece : Piece} {rest : List Char} (h : piece.Fits rest) {kind : TokenKind}
    {lexeme : String} (ht : piece.token? = some (kind, lexeme)) : kind ≠ .endOfFile := by
  rintro rfl
  cases piece with
  | word letters =>
    simp only [token?, Option.some.injEq, Prod.mk.injEq] at ht
    have hmem := wordKind_mem letters
    rw [ht.1] at hmem
    exact absurd hmem (by decide)
  | symbol kind =>
    simp only [token?, Option.some.injEq, Prod.mk.injEq] at ht
    rw [Fits, ht.1] at h
    exact absurd h.1 (by decide)
  | _ => simp [token?] at ht

end Piece

end Clite
