import Mathlib.Data.List.Induction
import Clite.Proofs.Lexing.Sessions

/-!
# Places in a source text

A position lies in a text if its line and its column are those of the place that its offset names
(`Position.LiesIn`).  The lexer only comes to positions on its way through the text, one character after the other
(`Position.along`), and all of them lie in it as long as the 32-bit words suffice (`Position.liesIn_of_mem_along`).  What
the lexer hands out on its way stands further and further on (`Lexer.Passes`).
-/

namespace Clite

namespace Position

/-- So many characters into the text the line is one more than the number of newlines in front, and the column one more
than the number of characters behind the last of them. -/
structure LiesIn (p : Position) (s : List Char) : Prop where
  offset : p.offset ≤ s.length
  line : p.line.toNat = 1 + (s.take p.offset).count '\n'
  column : p.column.toNat = 1 + ((s.take p.offset).reverse.takeWhile (· ≠ '\n')).length

/-- On the way through a text are the positions behind its beginnings. -/
theorem mem_along {p q : Position} {s : List Char} : p ∈ q.along s ↔ ∃ u, u <+: s ∧ p = q.advanceAll u := by
  induction s generalizing q with
  | nil => simp [along, List.prefix_nil]
  | cons c s ih =>
    rw [along, List.mem_cons, ih]
    constructor
    · intro h
      rcases h with rfl | ⟨u, hu, rfl⟩
      · exact ⟨[], List.nil_prefix, rfl⟩
      · exact ⟨c :: u, (List.prefix_cons_inj c).2 hu, rfl⟩
    · intro ⟨u, hu, hp⟩
      rcases List.prefix_cons_iff.1 hu with rfl | ⟨v, rfl, hv⟩
      · exact .inl hp
      · exact .inr ⟨v, hv, hp⟩

/-- Columns are counted from the last newline. -/
theorem column_advanceAll_start (s : List Char) :
    (start.advanceAll s).column = 1 + UInt32.ofNat (s.reverse.takeWhile (· ≠ '\n')).length := by
  induction s using List.reverseRecOn with
  | nil => rfl
  | append_singleton s c ih =>
    rw [advanceAll_append, advanceAll_cons, advanceAll_nil, List.reverse_append, List.reverse_singleton,
      List.singleton_append]
    by_cases hc : c = '\n'
    · simp [advance, hc]
    · have hlonger : ((c :: s.reverse).takeWhile (· ≠ '\n')).length =
          (s.reverse.takeWhile (· ≠ '\n')).length + 1 := by simp [hc]
      rw [advance, if_neg hc, hlonger, ih, UInt32.ofNat_add, UInt32.add_assoc]
      rfl

private theorem toNat_one_add {n : Nat} (h : n < UInt32.size - 1) : (1 + UInt32.ofNat n).toNat = 1 + n := by
  have hsize : UInt32.size = 4294967296 := rfl
  have hone : (1 : UInt32).toNat = 1 := rfl
  have hn : (UInt32.ofNat n).toNat = n := UInt32.toNat_ofNat_of_lt (by omega)
  rw [UInt32.toNat_add, hn]
  exact Nat.mod_eq_of_lt (by omega)

/-- Each position on the way lies in the text, if there are not too many characters to be counted. -/
theorem liesIn_of_mem_along {p : Position} {s : List Char} (h : p ∈ start.along s)
    (hlength : s.length < UInt32.size - 1) : p.LiesIn s := by
  obtain ⟨u, ⟨rest, rfl⟩, rfl⟩ := mem_along.1 h
  have htake : (u ++ rest).take (start.advanceAll u).offset = u := by
    rw [offset_advanceAll_start, List.take_left]
  rw [List.length_append] at hlength
  constructor
  · rw [offset_advanceAll_start, List.length_append]
    omega
  · have hcount : u.count '\n' ≤ u.length := List.count_le_length
    rw [htake, line_advanceAll]
    exact toNat_one_add (by omega)
  · have hcolumn : (u.reverse.takeWhile (· ≠ '\n')).length ≤ u.reverse.length :=
      (List.takeWhile_prefix _).length_le
    rw [List.length_reverse] at hcolumn
    rw [htake, column_advanceAll_start]
    exact toNat_one_add (by omega)

end Position

/-- The diagnostic speaks of a place in the text. -/
def Diagnostic.PlacedIn (d : Diagnostic) (s : List Char) : Prop :=
  ∃ place ∈ Position.start.along s, d.position = some place

/-- What is wrong with a piece is reported in front of it or behind it. -/
theorem Piece.placedIn_of_mem_diagnosticsFrom {u rest : List Char} {pieces : List Piece} {d : Diagnostic}
    (h : d ∈ diagnosticsFrom (Position.start.advanceAll u) pieces) :
    d.PlacedIn (u ++ pieces.flatMap text ++ rest) := by
  induction pieces generalizing u with
  | nil => simp [diagnosticsFrom] at h
  | cons piece pieces ih =>
    rw [diagnosticsFrom, ← Position.advanceAll_append] at h
    rw [List.flatMap_cons, ← List.append_assoc]
    rcases List.mem_append.1 h with h | h
    · obtain ⟨e, he, rfl⟩ : ∃ e, piece.error? (Position.start.advanceAll u) = some e ∧
          (⟨e.1.message, some e.2⟩ : Diagnostic) = d := by simpa using h
      have hfront : u <+: u ++ piece.text ++ pieces.flatMap text ++ rest := by simp [List.append_assoc]
      have hbehind : u ++ piece.text <+: u ++ piece.text ++ pieces.flatMap text ++ rest := by
        simp [List.append_assoc]
      refine ⟨e.2, Position.mem_along.2 ?_, rfl⟩
      rcases place_of_error? he with hplace | hplace
      · exact ⟨u, hfront, hplace⟩
      · exact ⟨u ++ piece.text, hbehind, by rw [hplace, Position.advanceAll_append]⟩
    · exact ih h

namespace Lexer

variable {s : List Char} {l l' l'' : Lexer}

/-- The lexer is on its way through the text, and has reported errors of that text only. -/
structure PlacedIn (l : Lexer) (s : List Char) : Prop where
  text : ∃ u, u ++ l.pieces.flatMap Piece.text = s ∧ l.position = Position.start.advanceAll u
  fits : ∀ piece ∈ l.pieces, ∃ rest, piece.Fits rest
  reported : ∀ d ∈ l.reporter.diagnostics, d.PlacedIn s

theorem placedIn_reopen (l : Lexer) (source : String) : (l.reopen source).PlacedIn source.toList where
  text := ⟨[], Piece.flatMap_text_split _, rfl⟩
  fits _ := Piece.exists_fits_of_mem_split
  reported := by simp [reopen, Reporter.clear]

theorem PlacedIn.mem_along (h : l.PlacedIn s) : l.position ∈ Position.start.along s := by
  obtain ⟨u, htext, hposition⟩ := h.text
  exact Position.mem_along.2 ⟨u, ⟨_, htext⟩, hposition⟩

/-- At the end of the text all of its characters are behind the lexer. -/
theorem PlacedIn.offset_of_atEnd (h : l.PlacedIn s) (hend : l.pieces = []) : l.position.offset = s.length := by
  obtain ⟨u, htext, hposition⟩ := h.text
  rw [hposition, Position.offset_advanceAll_start, ← htext, hend]
  simp

/-- Behind some of its pieces the lexer is further on its way. -/
theorem PlacedIn.behindAll (h : l.PlacedIn s) (passed rest : List Piece) (hpieces : l.pieces = passed ++ rest) :
    ((l.behindAll passed).facing rest).PlacedIn s := by
  obtain ⟨u, htext, hposition⟩ := h.text
  rw [hpieces, List.flatMap_append, ← List.append_assoc] at htext
  constructor
  · refine ⟨u ++ passed.flatMap Piece.text, htext, ?_⟩
    rw [position_facing, position_behindAll, hposition, Position.advanceAll_append]
  · intro piece hpiece
    exact h.fits piece (by simp [hpieces, show piece ∈ rest from hpiece])
  · intro d hd
    have hreporter : ((l.behindAll passed).facing rest).reporter = (l.behindAll passed).reporter := rfl
    rw [hreporter, reporter_behindAll, Reporter.diagnostics_foldl_report, hposition] at hd
    rcases List.mem_append.1 hd with hd | hd
    · exact h.reported d hd
    · rw [← htext]
      exact Piece.placedIn_of_mem_diagnosticsFrom hd

/-- On its way from one point of the text to another the lexer hands out tokens that stand further and further on, up to
the end of the file. -/
structure Passes (s : List Char) (l : Lexer) (tokens : List Token) (l' : Lexer) : Prop where
  placed : l'.PlacedIn s
  forward : l.position.offset ≤ l'.position.offset
  along : ∀ t ∈ tokens, t.position ∈ Position.start.along s
  behind : ∀ t ∈ tokens, l.position.offset ≤ t.position.offset
  inFront : ∀ t ∈ tokens, t.kind ≠ .endOfFile → t.position.offset < l'.position.offset
  atEnd : ∀ t ∈ tokens, t.kind = .endOfFile → t.position.offset = s.length
  ascending : tokens.Pairwise fun t t' => t.kind ≠ .endOfFile → t.position.offset < t'.position.offset

theorem Passes.refl (h : l.PlacedIn s) : Passes s l [] l :=
  ⟨h, Nat.le_refl _, nofun, nofun, nofun, nofun, .nil⟩

theorem Passes.trans {tokens tokens' : List Token} (h : Passes s l tokens l') (h' : Passes s l' tokens' l'') :
    Passes s l (tokens ++ tokens') l'' where
  placed := h'.placed
  forward := Nat.le_trans h.forward h'.forward
  along := List.forall_mem_append.2 ⟨h.along, h'.along⟩
  behind := List.forall_mem_append.2 ⟨h.behind, fun t ht => Nat.le_trans h.forward (h'.behind t ht)⟩
  inFront :=
    List.forall_mem_append.2 ⟨fun t ht hkind => Nat.lt_of_lt_of_le (h.inFront t ht hkind) h'.forward, h'.inFront⟩
  atEnd := List.forall_mem_append.2 ⟨h.atEnd, h'.atEnd⟩
  ascending := by
    rw [List.pairwise_append]
    refine ⟨h.ascending, h'.ascending, fun t ht t' ht' hkind => ?_⟩
    have hfront := h.inFront t ht hkind
    have hbehind := h'.behind t' ht'
    omega

theorem Passes.single {t : Token} (hplaced : l'.PlacedIn s) (hforward : l.position.offset ≤ l'.position.offset)
    (halong : t.position ∈ Position.start.along s) (hbehind : l.position.offset ≤ t.position.offset)
    (hfront : t.kind ≠ .endOfFile → t.position.offset < l'.position.offset)
    (hend : t.kind = .endOfFile → t.position.offset = s.length) : Passes s l [t] l' where
  placed := hplaced
  forward := hforward
  along := List.forall_mem_singleton.2 halong
  behind := List.forall_mem_singleton.2 hbehind
  inFront := List.forall_mem_singleton.2 hfront
  atEnd := List.forall_mem_singleton.2 hend
  ascending := List.pairwise_singleton _ _

/-- The next token stands behind the gaps in front of it, and the lexer behind its piece. -/
theorem PlacedIn.passes_next (h : l.PlacedIn s) : Passes s l [l.next.1] l.next.2 := by
  obtain ⟨hbehind, hforward⟩ := l.offset_next
  rcases l.next_cases with ⟨-, hn⟩ | ⟨gaps, piece, rest, kind, lexeme, hpieces, -, ht, hn⟩
  · have hplaced := h.behindAll l.pieces [] (List.append_nil _).symm
    rw [hn] at hbehind hforward ⊢
    exact .single hplaced (Nat.le_trans hbehind hforward) hplaced.mem_along hbehind (absurd rfl)
      fun _ => hplaced.offset_of_atEnd rfl
  · have hgaps := h.behindAll gaps (piece :: rest) hpieces
    have hplaced := h.behindAll (gaps ++ [piece]) rest (by simp [hpieces])
    obtain ⟨after, hfits⟩ := h.fits piece (by simp [hpieces])
    rw [behindAll_append] at hplaced
    rw [hn] at hbehind hforward ⊢
    refine .single hplaced (Nat.le_trans hbehind hforward) hgaps.mem_along hbehind (fun _ => ?_) ?_
    · have hlong : 0 < piece.text.length := List.length_pos_iff.2 hfits.text_ne_nil
      simp only [position_facing, position_behind, Position.offset_advanceAll]
      omega
    · intro hkind
      exact absurd hkind (hfits.kind_ne_endOfFile ht)

/-- All tokens up to the end of the file are handed out one after the other. -/
theorem PlacedIn.passes_tokenize (h : l.PlacedIn s) : Passes s l l.tokenize.1 l.tokenize.2 := by
  induction l using next_induction with
  | next l ih =>
    have hnext := h.passes_next
    rw [tokenize_next]
    split
    · exact hnext
    · next hkind => exact hnext.trans (ih hkind hnext.placed)

/-- Does the step hand out tokens? -/
def Step.scans : Step → Bool
  | next | tokenize => true
  | reopen _ | external _ => false

theorem PlacedIn.passes_performAll (h : l.PlacedIn s) {steps : List Step}
    (hsteps : ∀ step ∈ steps, step.scans) : Passes s l (l.performAll steps).1.flatten (l.performAll steps).2 := by
  induction steps generalizing l with
  | nil => exact .refl h
  | cons step steps ih =>
    rw [List.forall_mem_cons] at hsteps
    have hstep : Passes s l (l.perform step).1 (l.perform step).2 := by
      cases step with
      | next => exact h.passes_next
      | tokenize => exact h.passes_tokenize
      | reopen | external => cases hsteps.1
    exact hstep.trans (ih hstep.placed hsteps.2)

end Lexer

end Clite
