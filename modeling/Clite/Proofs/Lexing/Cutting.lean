import Clite.Proofs.Lexing.Pieces

/-!
# Cutting off a given piece

A piece that fits in front of a text is the one that is cut off there (`Piece.Fits.split_append`).  So a text that is
put together from pieces, each of which fits in front of the others, is cut into these pieces again.
-/

namespace Clite.Piece

/-- Cut off what comes first in the text of the piece and of `rest`, it is that piece, and `rest` is left. -/
def Leads (piece : Piece) (rest : List Char) : Prop :=
  ∃ c s, piece.text ++ rest = c :: s ∧ first c s = (piece, rest)

section Runs

variable {p : Char → Bool} {s rest : List Char}

private theorem takeWhile_append_of_stop (hs : ∀ c ∈ s, p c) (hrest : ∀ c ∈ rest.head?, p c = false) :
    (s ++ rest).takeWhile p = s := by
  rw [List.takeWhile_append_of_pos hs]
  cases rest with
  | nil => simp
  | cons c rest => simp [hrest c rfl]

private theorem dropWhile_append_of_stop (hs : ∀ c ∈ s, p c) (hrest : ∀ c ∈ rest.head?, p c = false) :
    (s ++ rest).dropWhile p = rest := by
  rw [List.dropWhile_append_of_pos hs]
  cases rest with
  | nil => simp
  | cons c rest => simp [hrest c rfl]

end Runs

/-- The blanks. -/
theorem eq_of_isBlank {c : Char} (h : isBlank c) : c = ' ' ∨ c = '\t' ∨ c = '\n' ∨ c = '\r' := by
  simpa [isBlank, or_assoc] using h

theorem isAlphanum_eq_false {c : Char} (h : isBlank c) : c.isAlphanum = false := by
  rcases eq_of_isBlank h with rfl | rfl | rfl | rfl <;> rfl

private theorem isBlank_eq_false {c : Char} (h : c.isAlphanum) : isBlank c = false := by
  by_cases hb : isBlank c = true
  · simp [isAlphanum_eq_false hb] at h
  · simpa using hb

theorem isAlpha_eq_false {c : Char} (h : c.isDigit) : c.isAlpha = false := by
  have hle : c.val.toNat ≤ '9'.val.toNat := by
    simp only [Char.isDigit, Bool.and_eq_true, decide_eq_true_eq] at h
    exact UInt32.le_iff_toNat_le.1 h.2
  -- the letters come behind the digits
  have hbelow (a : Char) (ha : '9'.val.toNat < a.val.toNat) : ¬ a.val ≤ c.val := by
    rw [UInt32.le_iff_toNat_le]
    omega
  have hupper : c.isUpper = false := decide_eq_false fun hu => hbelow 'A' (by decide) hu.1
  have hlower : c.isLower = false :=
    Bool.and_eq_false_iff.2 (.inl (decide_eq_false (hbelow 'a' (by decide))))
  exact Bool.or_eq_false_iff.2 ⟨hupper, hlower⟩

private theorem leads_comment {body rest : List Char} (h : (comment body).Fits rest) :
    (comment body).Leads rest := by
  have hbody : ∀ c ∈ body, decide (c ≠ '\n') = true := by
    intro c hc
    exact decide_eq_true fun hn => h.1 (hn ▸ hc)
  have hstop : ∀ c ∈ rest.head?, decide (c ≠ '\n') = false := by simpa using h.2
  refine ⟨'/', '/' :: (body ++ rest), rfl, ?_⟩
  show (comment _, _) = _
  rw [takeWhile_append_of_stop hbody hstop, dropWhile_append_of_stop hbody hstop]

private theorem leads_word {letters rest : List Char} (h : (word letters).Fits rest) :
    (word letters).Leads rest := by
  obtain ⟨⟨c, s, rfl, hc⟩, hall, hrest⟩ := h
  rw [List.forall_mem_cons] at hall
  have hstop : ∀ c ∈ rest.head?, c.isAlphanum = false := by simpa using hrest
  refine ⟨c, s ++ rest, rfl, ?_⟩
  rw [first, isBlank_eq_false hall.1, if_neg (by simp), if_pos hc, takeWhile_append_of_stop hall.2 hstop,
    dropWhile_append_of_stop hall.2 hstop]

private theorem first_of_isDigit {c : Char} (h : c.isDigit) (s : List Char) : first c s = number c s := by
  have hb : isBlank c = false := isBlank_eq_false (by simp [Char.isAlphanum, h])
  rw [first, hb, isAlpha_eq_false h, if_neg (by simp), if_neg (by simp), if_pos h]

private theorem leads_integer {digits rest : List Char} (h : (integer digits).Fits rest) :
    (integer digits).Leads rest := by
  obtain ⟨hne, hall, hrest⟩ := h
  obtain ⟨c, s, rfl⟩ := List.exists_cons_of_ne_nil hne
  rw [List.forall_mem_cons] at hall
  have hstop : ∀ c ∈ rest.head?, c.isDigit = false := fun c hc => by simpa using (hrest c hc).1
  refine ⟨c, s ++ rest, rfl, ?_⟩
  rw [first_of_isDigit hall.1, number, takeWhile_append_of_stop hall.2 hstop, dropWhile_append_of_stop hall.2 hstop]
  split
  · exact absurd rfl (hrest '.' rfl).2
  · rfl

private theorem leads_decimal {whole fraction rest : List Char} (h : (decimal whole fraction).Fits rest) :
    (decimal whole fraction).Leads rest := by
  obtain ⟨hne, hall, hrest⟩ := h
  obtain ⟨c, s, rfl⟩ := List.exists_cons_of_ne_nil hne
  rw [List.forall_mem_append, List.forall_mem_cons] at hall
  have hstop : ∀ c ∈ rest.head?, c.isDigit = false := by simpa using hrest
  have hpoint : ∀ c ∈ ('.' :: (fraction ++ rest)).head?, c.isDigit = false := by
    rintro _ ⟨⟩
    rfl
  refine ⟨c, s ++ '.' :: (fraction ++ rest), by simp [text], ?_⟩
  rw [first_of_isDigit hall.1.1, number, takeWhile_append_of_stop hall.1.2 hpoint,
    dropWhile_append_of_stop hall.1.2 hpoint]
  show (decimal (c :: s) _, _) = _
  rw [takeWhile_append_of_stop hall.2 hstop, dropWhile_append_of_stop hall.2 hstop]

private theorem either_of_ne {second : Char} {rest : List Char} (h : rest.head? ≠ some second)
    (longer shorter : TokenKind) : either second longer shorter rest = (symbol shorter, rest) := by
  unfold either
  split
  · rfl
  · next c rest => rw [if_neg fun hc => h (congrArg some hc)]

private theorem slash_of_ne {rest : List Char} (h : rest.head? ≠ some '/') :
    slash rest = (symbol (.operator .div), rest) := by
  unfold slash
  split
  · exact absurd rfl h
  · rfl

private theorem doubled_of_ne {c : Char} {rest : List Char} (h : rest.head? ≠ some c) (op : BinaryOp) :
    doubled c op rest = (rejected (.lone c), rest) := by
  unfold doubled
  split
  · rfl
  · next d rest => rw [if_neg fun hd => h (congrArg some hd)]

private theorem leads_symbol {kind : TokenKind} {rest : List Char} (h : (symbol kind).Fits rest) :
    (symbol kind).Leads rest := by
  obtain ⟨hsymbol, hext⟩ := h
  -- a symbol that a second character could go on with is cut off where that character is missing
  have hstop (c : Char) (hc : extension? kind = some c) : rest.head? ≠ some c := fun h => hext c h hc
  cases kind with
  | assign => exact ⟨'=', rest, rfl, either_of_ne (hstop '=' rfl) _ _⟩
  | bang => exact ⟨'!', rest, rfl, either_of_ne (hstop '=' rfl) _ _⟩
  | operator op =>
    cases op with
    | less => exact ⟨'<', rest, rfl, either_of_ne (hstop '=' rfl) _ _⟩
    | greater => exact ⟨'>', rest, rfl, either_of_ne (hstop '=' rfl) _ _⟩
    | div => exact ⟨'/', rest, rfl, slash_of_ne (hstop '/' rfl)⟩
    | _ => exact ⟨_, _, rfl, rfl⟩
  | leftBrace | rightBrace | leftBracket | rightBracket | leftParen | rightParen | semicolon | comma =>
    exact ⟨_, _, rfl, rfl⟩
  | _ => cases hsymbol

private theorem leads_charLiteral {c : Char} {closed : Bool} {rest : List Char}
    (h : (charLiteral c closed).Fits rest) : (charLiteral c closed).Leads rest := by
  cases closed with
  | true =>
    have hc : c ≠ '\'' := h
    refine ⟨'\'', c :: '\'' :: rest, rfl, ?_⟩
    show quoted _ = _
    rw [quoted]
    exact hc
  | false =>
    obtain ⟨hc, hrest⟩ := h
    refine ⟨'\'', c :: rest, rfl, ?_⟩
    show quoted _ = _
    rw [quoted]
    · exact hc
    · rintro after rfl
      exact hrest rfl

private theorem leads_illegal {c : Char} {rest : List Char} (h : (rejected (.illegal c)).Fits rest) :
    (rejected (.illegal c)).Leads rest := by
  obtain ⟨hblank, hstart⟩ := h
  simp only [StartsToken, not_or, not_exists, not_and] at hstart
  obtain ⟨halpha, hdigit, hquote, hsymbol⟩ := hstart
  refine ⟨c, rest, rfl, ?_⟩
  rw [first, if_neg hblank, if_neg halpha, if_neg hdigit, if_neg hquote]
  unfold mark
  split
  case h_1 => exact absurd rfl (hsymbol .leftBrace rfl)
  case h_2 => exact absurd rfl (hsymbol .rightBrace rfl)
  case h_3 => exact absurd rfl (hsymbol .leftBracket rfl)
  case h_4 => exact absurd rfl (hsymbol .rightBracket rfl)
  case h_5 => exact absurd rfl (hsymbol .leftParen rfl)
  case h_6 => exact absurd rfl (hsymbol .rightParen rfl)
  case h_7 => exact absurd rfl (hsymbol .semicolon rfl)
  case h_8 => exact absurd rfl (hsymbol .comma rfl)
  case h_9 => exact absurd rfl (hsymbol (.operator .add) rfl)
  case h_10 => exact absurd rfl (hsymbol (.operator .sub) rfl)
  case h_11 => exact absurd rfl (hsymbol (.operator .mul) rfl)
  case h_12 => exact absurd rfl (hsymbol (.operator .div) rfl)
  case h_13 => exact absurd rfl (hsymbol .assign rfl)
  case h_14 => exact absurd rfl (hsymbol (.operator .less) rfl)
  case h_15 => exact absurd rfl (hsymbol (.operator .greater) rfl)
  case h_16 => exact absurd rfl (hsymbol .bang rfl)
  case h_17 => exact absurd rfl (hsymbol (.operator .and) rfl)
  case h_18 => exact absurd rfl (hsymbol (.operator .or) rfl)
  case h_19 => rfl

theorem Fits.leads {piece : Piece} {rest : List Char} (h : piece.Fits rest) : piece.Leads rest := by
  cases piece with
  | blank c => exact ⟨c, rest, rfl, if_pos h⟩
  | comment body => exact leads_comment h
  | word letters => exact leads_word h
  | integer digits => exact leads_integer h
  | decimal whole fraction => exact leads_decimal h
  | symbol kind => exact leads_symbol h
  | charLiteral c closed => exact leads_charLiteral h
  | rejected what =>
    cases what with
    | illegal c => exact leads_illegal h
    | lone c =>
      obtain ⟨rfl | rfl, hrest⟩ := h
      · exact ⟨'&', rest, rfl, doubled_of_ne hrest _⟩
      · exact ⟨'|', rest, rfl, doubled_of_ne hrest _⟩
    | emptyLiteral => exact ⟨_, _, rfl, rfl⟩
    | openLiteral =>
      obtain rfl : rest = [] := h
      exact ⟨'\'', [], rfl, rfl⟩

/-- A piece that fits in front of a text is cut off there. -/
theorem Fits.split_append {piece : Piece} {rest : List Char} (h : piece.Fits rest) :
    split (piece.text ++ rest) = piece :: split rest := by
  obtain ⟨c, s, htext, hfirst⟩ := h.leads
  rw [htext, split_cons, hfirst]

/-- No piece is empty. -/
theorem Fits.text_ne_nil {piece : Piece} {rest : List Char} (h : piece.Fits rest) : piece.text ≠ [] := by
  obtain ⟨c, s, -, hfirst⟩ := h.leads
  have hne := text_first_ne_nil c s
  rwa [hfirst] at hne

/-! ### Other texts behind a piece -/

/-- No symbol goes on with a blank. -/
private theorem extension?_ne_of_isBlank {c : Char} (h : isBlank c) (kind : TokenKind) :
    extension? kind ≠ some c := by
  rcases eq_of_isBlank h with rfl | rfl | rfl | rfl <;> (unfold extension?; split <;> simp)

/-- A piece that fits in front of a text fits in front of every text that begins with the same character or with a
blank; only a comment goes on up to a newline, and only the end of the text leaves a quote open. -/
theorem Fits.of_head {piece : Piece} {rest rest' : List Char} (h : piece.Fits rest)
    (hopen : piece ≠ rejected .openLiteral)
    (hcomment : ∀ body, piece = comment body → ∀ c ∈ rest'.head?, c = '\n')
    (hhead : ∀ c ∈ rest'.head?, c ∈ rest.head? ∨ isBlank c) : piece.Fits rest' := by
  have hne {c : Char} (hc : isBlank c = false) (hrest : rest.head? ≠ some c) : rest'.head? ≠ some c := by
    intro hsome
    rcases hhead c hsome with h | h
    · exact hrest h
    · simp [hc] at h
  cases piece with
  | blank c => exact h
  | comment body => exact ⟨h.1, hcomment body rfl⟩
  | word letters =>
    refine ⟨h.1, h.2.1, fun c hc => ?_⟩
    rcases hhead c hc with hc | hc
    · exact h.2.2 c hc
    · simp [isAlphanum_eq_false hc]
  | integer digits =>
    refine ⟨h.1, h.2.1, fun c hc => ?_⟩
    rcases hhead c hc with hc | hc
    · exact h.2.2 c hc
    · rcases eq_of_isBlank hc with rfl | rfl | rfl | rfl <;> decide
  | decimal whole fraction =>
    refine ⟨h.1, h.2.1, fun c hc => ?_⟩
    rcases hhead c hc with hc | hc
    · exact h.2.2 c hc
    · rcases eq_of_isBlank hc with rfl | rfl | rfl | rfl <;> rfl
  | symbol kind =>
    refine ⟨h.1, fun c hc => ?_⟩
    rcases hhead c hc with hc | hc
    · exact h.2 c hc
    · exact extension?_ne_of_isBlank hc kind
  | charLiteral c closed =>
    cases closed with
    | true => exact h
    | false => exact ⟨h.1, hne rfl h.2⟩
  | rejected what =>
    cases what with
    | illegal c => exact h
    | lone c =>
      have hc : isBlank c = false := by rcases h.1 with rfl | rfl <;> rfl
      exact ⟨h.1, hne hc h.2⟩
    | emptyLiteral => trivial
    | openLiteral => exact absurd rfl hopen

end Clite.Piece
