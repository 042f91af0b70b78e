import Clite.Proofs.Parsing.Remaining
import Clite.Proofs.Parsing.Steps

/-!
# Closing braces

A closing brace is consumed by a block that has consumed its opening brace, and by nothing else: a list of statements ends
in front of it, and so does whatever is skipped.  So no construct but a whole program, however faulty its text is, closes
a block that was opened in front of it (`Parser.braces_close_own_blocks`).
-/

namespace Clite

/-- No brace in `w` closes a block that was opened in front of `w`: up to no place are more closed than opened. -/
def ClosesOwn (w : List Token) : Prop :=
  ∀ n, (w.take n).countP (·.kind = .rightBrace) ≤ (w.take n).countP (·.kind = .leftBrace)

namespace ClosesOwn

variable {v w : List Token} {l t : Token}

theorem nil : ClosesOwn [] := by
  intro n
  simp

theorem append (hv : ClosesOwn v) (hw : ClosesOwn w) : ClosesOwn (v ++ w) := by
  intro n
  have h₁ := hv n
  have h₂ := hw (n - v.length)
  rw [List.take_append, List.countP_append, List.countP_append]
  omega

theorem singleton (ht : t.kind ≠ .rightBrace) : ClosesOwn [t] := by
  intro n
  have hnone : ([t].take n).countP (·.kind = .rightBrace) = 0 := by
    rw [List.countP_eq_zero]
    intro u hu
    have hmem := List.mem_of_mem_take hu
    simp only [List.mem_singleton] at hmem
    simp [hmem, ht]
  omega

/-- Behind an opening brace one more may be closed. -/
theorem block (hl : l.kind = .leftBrace) (hw : ClosesOwn w) (r : Token) : ClosesOwn (l :: (w ++ [r])) := by
  intro n
  cases n with
  | zero => simp
  | succ n =>
    -- one brace is opened in front of the members and at most one is closed behind them
    have hmembers := hw n
    have hclose : ([r].take (n - w.length)).countP (·.kind = .rightBrace) ≤ 1 := by
      have hcount := ([r].take (n - w.length)).countP_le_length (p := (·.kind = .rightBrace))
      have hlength := List.length_take_le' (n - w.length) [r]
      simp only [List.length_singleton] at hlength
      omega
    have htake : (l :: (w ++ [r])).take (n + 1) = l :: (w.take n ++ [r].take (n - w.length)) := by
      rw [List.take_succ_cons, List.take_append]
    simp only [htake, List.countP_cons, List.countP_append, hl, reduceCtorEq, decide_false, decide_true,
      Bool.false_eq_true, if_false, if_true]
    omega

end ClosesOwn

namespace Parser

variable {p q r : Parser}

/-- From `p` to `q` no block is closed that is open at `p`. -/
def Spares (p q : Parser) : Prop := ∃ w, p.tokens = w ++ q.tokens ∧ ClosesOwn w

namespace Spares

theorem refl (p : Parser) : p.Spares p := ⟨[], rfl, .nil⟩

theorem trans (h : p.Spares q) (h' : q.Spares r) : p.Spares r := by
  obtain ⟨v, hv, hclosed⟩ := h
  obtain ⟨w, hw, hclosed'⟩ := h'
  exact ⟨v ++ w, by rw [hv, hw, List.append_assoc], hclosed.append hclosed'⟩

theorem report (h : p.Spares q) (e : SyntaxError) : p.Spares (q.report e) := h

/-- Any token but a closing brace may be consumed. -/
theorem advance (hreg : p.Regular) (hk : p.current.kind ≠ .rightBrace) : p.Spares p.advance := by
  by_cases hend : p.current.kind = .endOfFile
  · have hp : p.tokens = [] := by simp [tokens, hend]
    have hsuffix := hreg.tokens_advance_suffix
    rw [hp, List.suffix_nil] at hsuffix
    exact ⟨[], by rw [hp, hsuffix, List.append_nil], .nil⟩
  · exact ⟨[p.current], hreg.tokens_of_kind hend, .singleton hk⟩

/-- A closing brace may be consumed behind the opening one. -/
theorem block (hreg : p.Regular) (hq : q.Regular) (hl : p.current.kind = .leftBrace) (hr : q.current.kind = .rightBrace)
    (h : p.advance.Spares q) : p.Spares q.advance := by
  obtain ⟨w, hw, hclosed⟩ := h
  have hopen := hreg.tokens_of_kind (by simp [hl])
  have hclose := hq.tokens_of_kind (by simp [hr])
  refine ⟨p.current :: (w ++ [q.current]), ?_, hclosed.block hl _⟩
  rw [hopen, hw, hclose]
  simp

end Spares

/-- Parsing closes its own blocks where it consumes no brace that closes none. -/
theorem Proceeds.spares (h : p.Proceeds False q) (hreg : p.Regular) : p.Spares q := by
  induction h with
  | refl p => exact .refl p
  | trans hpq _ ih ih' => exact (ih hreg).trans (ih' (hpq.reaches.regular hreg))
  | advance hk => exact .advance hreg hk
  | block hl hmembers hr ih => exact .block hreg (hmembers.reaches.regular hreg.advance) hl hr (ih hreg.advance)
  | report _ => exact (Spares.refl _).report _
  | @reject p _ hliteral _ =>
    have hk : p.current.kind ≠ .rightBrace := by
      intro hbrace
      rw [hbrace] at hliteral
      cases hliteral
    exact (Spares.advance hreg hk).report _
  | noteProgram p _ _ => exact .refl p

end Parser

/-- Only a program closes a block that it has not opened. -/
theorem Construct.spares_readIn {c : Construct} (hc : c ≠ .program) (room : Nat) {p : Parser} (hreg : p.Regular) :
    p.Spares (c.readIn room p).2 := (c.proceeds_readIn hc room p).spares hreg

namespace Parser

/-- Whatever construct but a program is asked for, from any parser on a text and with any number of constructs open: it
comes to an end, and among the tokens that it has consumed there are up to each place at least as many opening braces as
closing ones. -/
theorem braces_close_own_blocks {source : String} {skipped : Nat} {p : Parser}
    (h : (ofLexer ((Lexer.ofSource source).nextMany skipped).2).Reaches p) {c : Construct} (hc : c ≠ .program)
    (depth deepest : Nat) :
    ∃ fragment s w, Descent.Ends c.descend ⟨p, depth, deepest⟩ fragment s ∧
      (depth = 0 → (fragment, s.parser) = c.read p) ∧
      p.tokens = w ++ s.parser.tokens ∧
      ∀ u, u <+: w → u.countP (·.kind = .rightBrace) ≤ u.countP (·.kind = .leftBrace) := by
  have hreg : p.Regular := h.regular (regular_ofLexer_nextMany source skipped)
  obtain ⟨top, hends, -⟩ := c.follows_descend depth ⟨p, depth, deepest⟩ rfl
  obtain ⟨w, hw, hclosed⟩ := c.spares_readIn hc (maxNesting - depth) hreg
  refine ⟨_, _, w, hends, ?_, hw, fun u hu => ?_⟩
  · rintro rfl
    rw [Nat.sub_zero, c.readIn_maxNesting]
  · rw [List.prefix_iff_eq_take.1 hu]
    exact hclosed u.length

/-- A block with room for nothing inside: the brace that is skipped with the parenthesis is not closed, and the block ends
at the first brace behind it. -/
theorem braces_close_own_blocks_cut_off :
    let p := ofSource "{ x = ( { y } } ;"
    (ofLexer ((Lexer.ofSource "{ x = ( { y } } ;").nextMany 0).2).Reaches p ∧ Construct.statement ≠ .program ∧
    ∃ fragment s w, Descent.Ends Construct.statement.descend ⟨p, 63, 63⟩ fragment s ∧
      s.parser.tokens.map Token.kind = [.rightBrace, .semicolon] ∧ p.tokens = w ++ s.parser.tokens ∧
      ∀ u, u <+: w → u.countP (·.kind = .rightBrace) ≤ u.countP (·.kind = .leftBrace) := by
  intro p
  have hreaches : (ofLexer ((Lexer.ofSource "{ x = ( { y } } ;").nextMany 0).2).Reaches p := .refl
  have hc : Construct.statement ≠ .program := by decide
  obtain ⟨fragment, s, w, hends, -, hw, hclosed⟩ := braces_close_own_blocks hreaches hc 63 63
  obtain ⟨top, hread, -⟩ := Construct.statement.follows_descend 63 ⟨p, 63, 63⟩ rfl
  have hleft : (Construct.statement.readIn 1 p).2.tokens.map Token.kind = [.rightBrace, .semicolon] := by
    decide +kernel
  obtain ⟨-, rfl⟩ := hends.unique hread
  exact ⟨hreaches, hc, fragment, _, w, hends, hleft, hw, hclosed⟩

end Parser

end Clite
