import Clite.Parser.Expression
import Clite.Proofs.Parsing.Grammar
import Mathlib.Data.List.Induction

/-!
# The values of literals

A literal token has a value when the grammar gives it one (`Value.ofToken?_eq_some`); for an integer literal that
is the number its digits denote, if it has 32 bits with sign.
-/

namespace Clite

namespace Decimal

private theorem natural?_eq_some_iff {s : List Char} {n : Nat} :
    natural? s = some n ↔ (s ≠ [] ∧ ∀ c ∈ s, c.isDigit) ∧ Nat.ofDigitChars 10 s 0 = n := by
  simp [natural?]

private theorem ofDigitChars_append_digit (s : List Char) (c : Char) :
    Nat.ofDigitChars 10 (s ++ [c]) 0 = 10 * Nat.ofDigitChars 10 s 0 + (c.toNat - '0'.toNat) := by
  rw [Nat.ofDigitChars_append, Nat.ofDigitChars_cons, Nat.ofDigitChars_nil]

/-- A run of digits denotes the number that it is read to, and nothing else denotes a number. -/
theorem natural?_eq_some {s : List Char} {n : Nat} : natural? s = some n ↔ Numeral s n := by
  rw [natural?_eq_some_iff]
  constructor
  · rintro ⟨⟨hne, hdigits⟩, rfl⟩
    induction s using List.reverseRecOn with
    | nil => exact absurd rfl hne
    | append_singleton s c ih =>
      rw [ofDigitChars_append_digit]
      cases s with
      | nil => simpa using Numeral.digit (hdigits c (by simp))
      | cons d s =>
        have hs := ih (by simp) fun c hc => hdigits c (List.mem_append_left _ hc)
        exact .append hs (hdigits c (by simp))
  · intro h
    induction h with
    | digit hc => exact ⟨by simpa using hc, by simp [Nat.ofDigitChars_cons]⟩
    | append _ hc ih =>
      obtain ⟨⟨-, hdigits⟩, rfl⟩ := ih
      refine ⟨⟨by simp, fun d hd => ?_⟩, ofDigitChars_append_digit _ _⟩
      rcases List.mem_append.1 hd with hd | hd
      · exact hdigits d hd
      · rwa [List.mem_singleton.1 hd]

end Decimal

namespace Value

open Grammar (Literal)

/-- The value of a literal token is the one that the grammar gives it. -/
theorem ofToken?_eq_some {t : Token} {v : Value} : ofToken? t = some v ↔ Literal t.terminal v := by
  obtain ⟨position, kind, lexeme⟩ := t
  constructor
  · intro h
    cases kind with
    | truth b =>
      obtain rfl := Option.some.inj h
      exact .truth
    | intLiteral =>
      cases hn : Decimal.natural? lexeme.toList with
      | none => simp [ofToken?, hn] at h
      | some n =>
        simp only [ofToken?, hn, Option.ite_none_right_eq_some, Option.some.injEq] at h
        obtain ⟨hle, rfl⟩ := h
        exact .int (Decimal.natural?_eq_some.1 hn) hle (Int32.toInt_ofNat_of_lt (by omega))
    | floatLiteral =>
      obtain ⟨x, hx, rfl⟩ := Option.map_eq_some_iff.1 h
      exact .float hx
    | charLiteral =>
      obtain ⟨c, hc, rfl⟩ := Option.map_eq_some_iff.1 h
      exact .char hc
    | _ => cases h
  · intro h
    generalize ht : Token.terminal ⟨position, kind, lexeme⟩ = terminal at h
    cases h with
    | truth =>
      cases ht
      rfl
    | @int s n v hs hn hv =>
      cases ht
      have hint : (Int32.ofNat n).toInt = n := Int32.toInt_ofNat_of_lt (by omega)
      simp [ofToken?, Decimal.natural?_eq_some.2 hs, hn, Int32.toInt.inj (hint.trans hv.symm)]
    | float hx =>
      cases ht
      simp [ofToken?, hx]
    | char hc =>
      cases ht
      simp [ofToken?, hc]

end Value

end Clite
