import Clite.Proofs.Lexing.Reports
import Clite.Proofs.Lexing.Terminals

/-!
# Tokens between white space and comments

Tokens that are written down with white space between them, and with comments wherever there is white space, are
found again when the text is scanned.
-/

namespace Clite

/-- White space and comments, each comment with the newline that ends it. -/
inductive Layout : List Char → Prop
  | nil : Layout []
  | blank {c : Char} {s : List Char} : Piece.isBlank c → Layout s → Layout (c :: s)
  | comment {body s : List Char} : '\n' ∉ body → Layout s → Layout ('/' :: '/' :: (body ++ '\n' :: s))

/-- Tokens with the text behind each. -/
def spread (items : List (Terminal × List Char)) : List Char := items.flatMap fun item => item.1.text ++ item.2

/-- Layout, and then tokens with layout behind each that begins with white space if another token follows. -/
structure LaidOut (lead : List Char) (items : List (Terminal × List Char)) : Prop where
  lead : Layout lead
  wellFormed : ∀ item ∈ items, item.1.WellFormed
  layout : ∀ item ∈ items, Layout item.2
  apart : ∀ item ∈ items.dropLast, ∃ c s, item.2 = c :: s ∧ Piece.isBlank c

namespace Layout

theorem head {s : List Char} (h : Layout s) : ∀ c ∈ s.head?, Piece.isBlank c ∨ c = '/' := by
  rintro c hc
  cases h with
  | nil => cases hc
  | blank hblank => cases hc; exact .inl hblank
  | comment => cases hc; exact .inr rfl

/-- Layout is cut into pieces that stand for no token and are not at fault. -/
theorem split_append {s : List Char} (h : Layout s) (rest : List Char) :
    ∃ gaps, Piece.split (s ++ rest) = gaps ++ Piece.split rest ∧ gaps.flatMap Piece.text = s ∧
      ∀ gap ∈ gaps, gap.token? = none ∧ gap.isFaulty = false := by
  induction h with
  | nil => exact ⟨[], rfl, rfl, by simp⟩
  | @blank c s hblank _ ih =>
    obtain ⟨gaps, hsplit, rfl, hgaps⟩ := ih
    have hfits : (Piece.blank c).Fits (gaps.flatMap Piece.text ++ rest) := hblank
    refine ⟨.blank c :: gaps, ?_, rfl, List.forall_mem_cons.2 ⟨⟨rfl, rfl⟩, hgaps⟩⟩
    rw [List.cons_append, List.cons_append, ← hsplit]
    exact hfits.split_append
  | @comment body s hbody _ ih =>
    obtain ⟨gaps, hsplit, rfl, hgaps⟩ := ih
    have hnewline : (Piece.blank '\n').Fits (gaps.flatMap Piece.text ++ rest) := rfl
    have hfits : (Piece.comment body).Fits ('\n' :: (gaps.flatMap Piece.text ++ rest)) := by
      refine ⟨hbody, ?_⟩
      rintro _ ⟨⟩
      rfl
    refine ⟨.comment body :: .blank '\n' :: gaps, ?_, by simp [Piece.text], ?_⟩
    · have hcut := hfits.split_append
      rw [show '\n' :: (gaps.flatMap Piece.text ++ rest) =
        (Piece.blank '\n').text ++ (gaps.flatMap Piece.text ++ rest) from rfl, hnewline.split_append, hsplit] at hcut
      simpa [Piece.text] using hcut
    · simpa [Piece.token?, Piece.isFaulty] using hgaps

end Layout

/-- Tokens where the texts of `items` begin, when the first begins at `start`. -/
def tokensAlong (start : Position) : List (Terminal × List Char) → List Token
  | [] => []
  | (t, gap) :: items => ⟨start, t.1, t.2⟩ :: tokensAlong (start.advanceAll (t.text ++ gap)) items

theorem map_terminal_tokensAlong (start : Position) (items : List (Terminal × List Char)) :
    (tokensAlong start items).map Token.terminal = items.map (·.1) := by
  induction items generalizing start with
  | nil => rfl
  | cons item items ih => rw [tokensAlong, List.map_cons, ih, List.map_cons]; rfl

theorem getElem?_tokensAlong (start : Position) (before : List (Terminal × List Char)) (item : Terminal × List Char)
    (after : List (Terminal × List Char)) :
    (tokensAlong start (before ++ item :: after))[before.length]? =
      some ⟨start.advanceAll (spread before), item.1.1, item.1.2⟩ := by
  induction before generalizing start with
  | nil => rfl
  | cons first before ih =>
    rw [List.cons_append, tokensAlong, List.length_cons, List.getElem?_cons_succ, ih]
    simp [spread, Position.advanceAll_append]

theorem LaidOut.mayPrecede {lead : List Char} {items : List (Terminal × List Char)} (h : LaidOut lead items)
    (hlast : ∀ item ∈ items.getLast?, item.1.1 = .operator .div → item.2.head? ≠ some '/')
    {before after : List (Terminal × List Char)} {item : Terminal × List Char}
    (hitems : items = before ++ item :: after) : item.1.MayPrecede (item.2 ++ spread after) := by
  subst hitems
  refine Terminal.mayPrecede_of_layout fun c hc => ?_
  cases after with
  | nil =>
    rw [spread, List.flatMap_nil, List.append_nil] at hc
    have hitem := hlast item (by simp)
    rcases (h.layout item (by simp)).head c hc with hblank | rfl
    · exact .inl hblank
    · exact .inr ⟨rfl, fun hdiv => hitem hdiv hc⟩
  | cons next after =>
    obtain ⟨d, s, hgap, hblank⟩ := h.apart item (by simp)
    rw [hgap] at hc
    cases hc
    exact .inl hblank

/-- Cutting up the texts of tokens that are kept apart. -/
theorem split_spread {items : List (Terminal × List Char)} (hwell : ∀ item ∈ items, item.1.WellFormed)
    (hlayout : ∀ item ∈ items, Layout item.2)
    (hapart : ∀ before item after, items = before ++ item :: after → item.1.MayPrecede (item.2 ++ spread after))
    (start : Position) :
    Piece.tokensFrom start (Piece.split (spread items)) = tokensAlong start items ∧
      ∀ piece ∈ Piece.split (spread items), piece.isFaulty = false := by
  induction items generalizing start with
  | nil => exact ⟨by simp [spread, Piece.tokensFrom, tokensAlong], by simp [spread]⟩
  | cons item items ih =>
    obtain ⟨t, gap⟩ := item
    rw [List.forall_mem_cons] at hwell hlayout
    have hwrites := hwell.1.writes
    obtain ⟨gaps, hsplit, hgap, hgaps⟩ := hlayout.1.split_append (spread items)
    have hcut : Piece.split (spread ((t, gap) :: items)) = t.piece :: (gaps ++ Piece.split (spread items)) := by
      rw [← hsplit, ← (hwrites.fits (hapart [] _ _ rfl)).split_append, hwrites.text, spread, List.flatMap_cons,
        List.append_assoc]
      rfl
    obtain ⟨htokens, hfaulty⟩ := ih hwell.2 hlayout.2
      (fun before item after hitems => hapart (_ :: before) item after (congrArg (List.cons _) hitems))
      (start.advanceAll (t.text ++ gap))
    rw [hcut]
    constructor
    · rw [Piece.tokensFrom, hwrites.token, Piece.tokensFrom_append_of_gaps fun g hg => (hgaps g hg).1, hgap,
        hwrites.text, ← Position.advanceAll_append, htokens]
      rfl
    · rw [List.forall_mem_cons, List.forall_mem_append]
      exact ⟨t.isFaulty_piece, fun g hg => (hgaps g hg).2, hfaulty⟩

/-- Tokens that are laid out are found again at their places, and nothing is reported.  Only a slash at the end must
not have a comment directly behind it. -/
theorem tokenize_laidOut {lead : List Char} {items : List (Terminal × List Char)} (h : LaidOut lead items)
    (hlast : ∀ item ∈ items.getLast?, item.1.1 = .operator .div → item.2.head? ≠ some '/') :
    let scanned := (Lexer.ofSource (String.ofList (lead ++ spread items))).tokenize
    scanned.1.map Token.terminal = items.map (·.1) ++ [(.endOfFile, "")] ∧
      (∀ before item after, items = before ++ item :: after →
        ∃ token, scanned.1[before.length]? = some token ∧
          token.position.offset = (lead ++ spread before).length) ∧
      scanned.2.errorCount = 0 ∧ scanned.2.reporter.diagnostics = [] := by
  intro scanned
  have hsource : (String.ofList (lead ++ spread items)).toList = lead ++ spread items := String.toList_ofList
  obtain ⟨gaps, hsplit, hlead, hgaps⟩ := h.lead.split_append (spread items)
  obtain ⟨htokens, hfaulty⟩ :=
    split_spread h.wellFormed h.layout (fun _ _ _ => h.mayPrecede hlast) (Position.start.advanceAll lead)
  have hclean : ∀ piece ∈ Piece.split (String.ofList (lead ++ spread items)).toList, piece.isFaulty = false := by
    rw [hsource, hsplit, List.forall_mem_append]
    exact ⟨fun gap hg => (hgaps gap hg).2, hfaulty⟩
  obtain ⟨stop, hstop⟩ := Lexer.tokens_ofSource (String.ofList (lead ++ spread items))
  have hscanned : scanned.1 = tokensAlong (Position.start.advanceAll lead) items ++ [.endOfFile stop] := by
    rw [hsource, hsplit, Piece.tokensFrom_append_of_gaps fun gap hg => (hgaps gap hg).1, hlead, htokens] at hstop
    exact hstop
  refine ⟨?_, ?_, Lexer.tokenize_of_clean hclean⟩
  · rw [hscanned, List.map_append, map_terminal_tokensAlong]
    rfl
  · rintro before item after rfl
    have hlt : before.length < (tokensAlong (Position.start.advanceAll lead) (before ++ item :: after)).length := by
      rw [← List.length_map Token.terminal, map_terminal_tokensAlong]
      simp
    rw [hscanned, List.getElem?_append_left hlt, getElem?_tokensAlong]
    refine ⟨_, rfl, ?_⟩
    rw [← Position.advanceAll_append, Position.offset_advanceAll]
    exact Nat.zero_add _

/-- A line break in quotes, comments on every side, and a slash at the end. -/
theorem tokenize_laidOut_comments :
    LaidOut "// a\n".toList [((.typeName .int, "int"), " // b\n".toList), ((.charLiteral, "\n"), "\t".toList),
        ((.operator .div, "/"), " // c\n".toList)] ∧
      (Lexer.ofSource "// a\nint // b\n'\n'\t/ // c\n").tokenize.1.map Token.terminal =
        [(.typeName .int, "int"), (.charLiteral, "\n"), (.operator .div, "/"), (.endOfFile, "")] := by
  have hlaid : LaidOut "// a\n".toList [((.typeName .int, "int"), " // b\n".toList),
      ((.charLiteral, "\n"), "\t".toList), ((.operator .div, "/"), " // c\n".toList)] := by
    refine ⟨@Layout.comment [' ', 'a'] [] (by decide) .nil, ?_, ?_, ?_⟩
    · simp only [List.forall_mem_cons]
      exact ⟨.keyword (by decide), @Terminal.WellFormed.char '\n' (by decide), .operator (.inl rfl), by simp⟩
    · simp only [List.forall_mem_cons]
      exact ⟨.blank rfl (@Layout.comment [' ', 'b'] [] (by decide) .nil), .blank rfl .nil,
        .blank rfl (@Layout.comment [' ', 'c'] [] (by decide) .nil), by simp⟩
    · simp only [List.dropLast, List.forall_mem_cons]
      exact ⟨⟨_, _, rfl, rfl⟩, ⟨_, _, rfl, rfl⟩, by simp⟩
  exact ⟨hlaid, (tokenize_laidOut hlaid (by decide)).1⟩

/-- A slash in front of a comment is the beginning of another comment. -/
theorem slash_lost_before_comment :
    LaidOut [] [((.operator .div, "/"), "//\n".toList)] ∧
      (Lexer.ofSource (String.ofList ([] ++ spread [((.operator .div, "/"), "//\n".toList)]))).tokenize.1.map
        Token.terminal = [(.endOfFile, "")] := by
  refine ⟨⟨.nil, ?_, ?_, by simp⟩, by decide +kernel⟩
  · simp only [List.forall_mem_cons]
    exact ⟨.operator (.inl rfl), by simp⟩
  · simp only [List.forall_mem_cons]
    exact ⟨@Layout.comment [] [] (by decide) .nil, by simp⟩

end Clite
