import Clite.Parser.Session
import Clite.Proofs.Lexing.Cutting
import Clite.Proofs.Lexing.Reports
import Clite.Proofs.Parsing.Literal

/-!
# Numerals

A numeral denotes one number, however many digits it has and however many of them are zeros in front.  Its digits can be
added up one by one in 32 bits with sign, where a step that would wrap is refused: this gives the number if it has 32
bits with sign, and nothing otherwise (`Decimal.Numeral.foldlM_appendDigit?`).  So a numeral that stands alone is read as
its number or reported, by its value and not by its length (`Parse.numeral_alone_is_read_by_value`).
-/

namespace Clite

namespace Decimal

theorem exists_numeral {s : List Char} (hne : s ≠ []) (hdigits : ∀ c ∈ s, c.isDigit) :
    ∃ n, ∀ m, Numeral s m ↔ m = n := by
  have hread : natural? s = some (Nat.ofDigitChars 10 s 0) := by simpa [natural?, hne] using hdigits
  refine ⟨Nat.ofDigitChars 10 s 0, fun m => ?_⟩
  rw [← natural?_eq_some, hread, Option.some.injEq]
  exact eq_comm

/-- One digit more behind the number `v`, in the arithmetic of 32 bits with sign; nothing if that wraps. -/
def appendDigit? (v : Int32) (c : Char) : Option Int32 :=
  let sum := 10 * v + Int32.ofNat (c.toNat - '0'.toNat)
  if sum.toInt = 10 * v.toInt + (c.toNat - '0'.toNat : Nat) then some sum else none

private theorem appendDigit?_ofNat {m : Nat} (hm : m ≤ 2147483647) (c : Char) :
    appendDigit? (Int32.ofNat m) c =
      if 10 * m + (c.toNat - '0'.toNat) ≤ 2147483647 then some (Int32.ofNat (10 * m + (c.toNat - '0'.toNat)))
      else none := by
  have hv : (Int32.ofNat m).toInt = m := Int32.toInt_ofNat_of_lt (by omega)
  have hsum : 10 * Int32.ofNat m + Int32.ofNat (c.toNat - '0'.toNat) =
      Int32.ofNat (10 * m + (c.toNat - '0'.toNat)) := by
    rw [Int32.ofNat_add, Int32.ofNat_mul]
    rfl
  have hexact : (Int32.ofNat (10 * m + (c.toNat - '0'.toNat))).toInt = 10 * (m : Int) + (c.toNat - '0'.toNat : Nat) ↔
      10 * m + (c.toNat - '0'.toNat) ≤ 2147483647 := by
    constructor
    · intro h
      have hlt := (Int32.ofNat (10 * m + (c.toNat - '0'.toNat))).toInt_lt
      omega
    · intro h
      rw [Int32.toInt_ofNat_of_lt (by omega)]
      exact Int.natCast_add _ _
  simp only [appendDigit?, hsum, hv, hexact]

/-- The digits of a numeral are added up without a wrap exactly if the number has 32 bits with sign. -/
theorem Numeral.foldlM_appendDigit? {s : List Char} {n : Nat} (h : Numeral s n) :
    s.foldlM appendDigit? 0 = if n ≤ 2147483647 then some (Int32.ofNat n) else none := by
  induction h with
  | @digit c _ => simpa using appendDigit?_ofNat (m := 0) (by omega) c
  | @append s n c _ _ ih =>
    rw [List.foldlM_append, ih]
    by_cases hn : n ≤ 2147483647
    · simpa [hn] using appendDigit?_ofNat hn c
    · have hover : ¬ 10 * n + (c.toNat - '0'.toNat) ≤ 2147483647 := by omega
      rw [if_neg hn, if_neg hover]
      rfl

end Decimal

/-- An integer literal has the value that its digits add up to in 32 bits. -/
theorem Value.ofToken?_numeral {place : Position} {s : String} {n : Nat} (h : Decimal.Numeral s.toList n) :
    ofToken? ⟨place, .intLiteral, s⟩ = (s.toList.foldlM Decimal.appendDigit? 0).map .int := by
  rw [h.foldlM_appendDigit?]
  simp only [ofToken?, Decimal.natural?_eq_some.2 h]
  split <;> rfl

theorem SyntaxError.message_invalid_numeral (s : String) (place : Position) :
    (invalidLiteral .intLiteral s place).message = "Invalid INT literal `" ++ s ++ "`" := by
  have hopening : "Invalid " ++ TokenKind.intLiteral.text ++ " literal `" = "Invalid INT literal `" := by decide
  exact congrArg (· ++ s ++ "`") hopening

namespace Parser

/-- A parser on a text that is a single token without a fault. -/
theorem ofSource_of_single {source : String} {piece : Piece} {k : TokenKind} {x : String}
    (hsplit : Piece.split source.toList = [piece]) (ht : piece.token? = some (k, x)) (hclean : piece.isFaulty = false) :
    let p := ofSource source
    p.current = ⟨.start, k, x⟩ ∧ p.diagnostics = [] ∧ p.advance.diagnostics = [] ∧
      p.advance.current = .endOfFile (Position.start.advanceAll source.toList) := by
  intro p
  let l := Lexer.ofSource source
  have hpieces : l.pieces = [piece] := hsplit
  have hnext : l.next = (⟨.start, k, x⟩, (l.behind piece).facing []) := by
    rw [Lexer.next, hpieces]
    exact Lexer.nextAmong_token ht l []
  have hp : p = ⟨(l.behind piece).facing [], ⟨.start, k, x⟩, 0⟩ := by
    show Parser.mk l.next.2 l.next.1 0 = _
    rw [hnext]
  have hreporter : (l.behind piece).reporter = l.reporter := by
    rw [Lexer.reporter_behind, Piece.error?_eq_none hclean]
  have hnone : (l.behind piece).reporter.diagnostics = [] := by
    rw [hreporter]
    rfl
  have htext : source.toList = piece.text := by
    rw [← Piece.flatMap_text_split source.toList, hsplit, List.flatMap_singleton]
  have hposition : (l.behind piece).position = Position.start.advanceAll source.toList := by
    rw [Lexer.position_behind, htext]
    rfl
  rw [hp]
  exact ⟨rfl, hnone, hnone, congrArg Token.endOfFile hposition⟩

end Parser

namespace Parse

open Clite.Parser

/-- An integer literal is consumed, whether it denotes a value or not. -/
private theorem run_primaryOver_intLiteral (parenthesized conversion : Parse Expr) {p : Parser}
    (h : p.current.kind = .intLiteral) :
    (primaryOver parenthesized conversion).run p =
      match Value.ofToken? p.current with
      | some v => (some (.literal v), p.advance)
      | none => (none, p.advance.report (.invalidLiteral .intLiteral p.current.lexeme p.current.position)) := by
  simp only [primaryOver, run_bind, run_current, h, literal]
  cases Value.ofToken? p.current <;> rfl

/-- A text of digits alone, however many, is one literal.  It is consumed and the end of the file, behind all digits, comes
next.  Where the number that it denotes has 32 bits with sign, it is read as that number, which its digits add up to
without a wrap, and nothing is reported; otherwise there is no result, a step in adding them up would wrap, and the one
thing that is reported is the literal, in full and where it begins. -/
theorem numeral_alone_is_read_by_value {source : String} (hne : source ≠ "") (hdigits : ∀ c ∈ source.toList, c.isDigit) :
    let read := primary.run (.ofSource source)
    read.2.current = .endOfFile (Position.start.advanceAll source.toList) ∧
    ∃ n, (∀ m, Decimal.Numeral source.toList m ↔ m = n) ∧
      (n ≤ 2147483647 → ∃ v : Int32, v.toInt = n ∧ source.toList.foldlM Decimal.appendDigit? 0 = some v ∧
        read.1 = some (.literal (.int v)) ∧ read.2.diagnostics = []) ∧
      (2147483647 < n → source.toList.foldlM Decimal.appendDigit? 0 = none ∧
        read.1 = none ∧ read.2.diagnostics = [⟨"Invalid INT literal `" ++ source ++ "`", some .start⟩]) := by
  intro read
  have hne' : source.toList ≠ [] := by simpa using hne
  have hfits : (Piece.integer source.toList).Fits [] := ⟨hne', hdigits, by simp⟩
  have hsplit : Piece.split source.toList = [.integer source.toList] := by simpa [Piece.text] using hfits.split_append
  have ht : (Piece.integer source.toList).token? = some (.intLiteral, source) := by simp [Piece.token?]
  obtain ⟨hcurrent, hnone, hnone', hend⟩ := ofSource_of_single hsplit ht rfl
  obtain ⟨n, hn⟩ := Decimal.exists_numeral hne' hdigits
  have hnumeral : Decimal.Numeral source.toList n := (hn n).2 rfl
  have hsum := hnumeral.foldlM_appendDigit?
  have hread : read = _ := run_primaryOver_intLiteral _ _ (p := .ofSource source) (by rw [hcurrent])
  rw [hcurrent, Value.ofToken?_numeral hnumeral, hsum] at hread
  by_cases hle : n ≤ 2147483647
  · rw [if_pos hle] at hread hsum
    have hv : (Int32.ofNat n).toInt = n := Int32.toInt_ofNat_of_lt (by omega)
    rw [hread]
    exact ⟨hend, n, hn, fun _ => ⟨_, hv, hsum, rfl, hnone'⟩, fun h => absurd hle (Nat.not_le_of_lt h)⟩
  · rw [if_neg hle] at hread hsum
    have hreport : read.2.diagnostics = [⟨"Invalid INT literal `" ++ source ++ "`", some .start⟩] := by
      rw [hread, ← SyntaxError.message_invalid_numeral source .start]
      exact (Reporter.diagnostics_report _ _).trans (by rw [← Parser.diagnostics, hnone']; rfl)
    rw [hread] at hreport ⊢
    exact ⟨hend, n, hn, fun h => absurd h hle, fun _ => ⟨hsum, rfl, hreport⟩⟩

/-- One more than the largest number, behind zeros. -/
theorem numeral_alone_is_read_by_value_padded :
    let source := "0002147483648"
    source ≠ "" ∧ (∀ c ∈ source.toList, c.isDigit) ∧ (primary.run (.ofSource source)).1 = none ∧
      (primary.run (.ofSource source)).2.diagnostics = [⟨"Invalid INT literal `0002147483648`", some .start⟩] := by
  intro source
  have hne : source ≠ "" := by decide
  have hdigits : ∀ c ∈ source.toList, c.isDigit := List.all_eq_true.1 (by decide)
  obtain ⟨-, n, hn, -, hrejected⟩ := numeral_alone_is_read_by_value hne hdigits
  have hnumeral : Decimal.Numeral source.toList 2147483648 := Decimal.natural?_eq_some.1 (by decide +kernel)
  obtain ⟨-, hnone, hreported⟩ := hrejected (by rw [← (hn _).1 hnumeral]; decide)
  exact ⟨hne, hdigits, hnone, hreported⟩

end Parse

end Clite
