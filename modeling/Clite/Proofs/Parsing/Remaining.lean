import Clite.Proofs.Parsing.Progress
import Clite.Proofs.Parsing.TokenList

/-!
# Runs that report errors

On a text without lexical errors the diagnostics that a run adds are syntax errors, and where they stand is told by the
tokens that are still to come (`Parser.tokens`).  `m.Leaves before new post` says of a run that begins before the tokens
`before` what it adds to the diagnostics, what comes of it and which tokens it leaves.  A run that succeeds adds nothing
(`Succeeds.leaves`); behind a run that reports something the next one goes on from the tokens that are left
(`Leaves.bind`).
-/

namespace Clite

theorem Lexer.Regular.tokensFrom_next {l : Lexer} (h : l.Regular) :
    Piece.tokensFrom l.position l.pieces =
      if l.next.1.kind = .endOfFile then []
      else l.next.1 :: Piece.tokensFrom l.next.2.position l.next.2.pieces := by
  rcases l.next_cases with ⟨hgaps, hnext⟩ | ⟨gaps, piece, rest, kind, lexeme, hp, hgaps, ht, hnext⟩
  · have hnil := Piece.tokensFrom_append_of_gaps hgaps l.position []
    rw [List.append_nil] at hnil
    rw [hnil, hnext]
    rfl
  · have hkind : kind ≠ .endOfFile := h piece (by simp [hp]) kind lexeme ht
    rw [hnext, if_neg hkind, hp, Piece.tokensFrom_append_of_gaps hgaps, Piece.tokensFrom, ht, ← position_behindAll,
      ← position_behind]
    rfl

namespace Parser

variable {p q : Parser}

/-- The tokens that a parser has before it. -/
def tokens (p : Parser) : List Token :=
  if p.current.kind = .endOfFile then [] else p.current :: Piece.tokensFrom p.lexer.position p.lexer.pieces

theorem Regular.tokens_advance (h : p.Regular) :
    p.advance.tokens = Piece.tokensFrom p.lexer.position p.lexer.pieces := h.lexer.tokensFrom_next.symm

theorem Regular.tokens_of_kind (h : p.Regular) (hk : p.current.kind ≠ .endOfFile) :
    p.tokens = p.current :: p.advance.tokens := by
  rw [h.tokens_advance, tokens, if_neg hk]

theorem Regular.tokens_eq_cons (h : p.Regular) {t : Token} {rest : List Token} (hp : p.tokens = t :: rest) :
    p.current = t ∧ p.advance.tokens = rest := by
  rw [h.tokens_advance]
  unfold tokens at hp
  split at hp
  · cases hp
  · exact List.cons.inj hp

theorem Regular.tokens_advance_suffix (h : p.Regular) : p.advance.tokens <:+ p.tokens := by
  rw [h.tokens_advance, tokens]
  split
  · next hend => rw [h.pieces_of_endOfFile hend]; exact List.suffix_refl _
  · exact List.suffix_cons _ _

theorem Reaches.tokens_suffix (h : p.Reaches q) (hp : p.Regular) : q.tokens <:+ p.tokens := by
  induction h with
  | refl => exact List.suffix_refl _
  | advance hq ih => exact (hq.regular hp).tokens_advance_suffix.trans ih
  | report _ _ ih => exact ih
  | reject hq _ ih => exact (hq.regular hp).tokens_advance_suffix.trans ih
  | noteProgram _ _ _ ih => exact ih

theorem Regular.map_terminal_tokens (h : p.Regular) : p.tokens.map Token.terminal = p.upcoming := by
  rw [tokens, upcoming]
  split
  · rfl
  · rw [List.map_cons, Piece.map_terminal_tokensFrom, h.lexer.upcoming_eq]

theorem tokens_ofSource (source : String) :
    (ofSource source).tokens = (Lexer.ofSource source).tokenize.1.dropLast := by
  obtain ⟨stop, htokens⟩ := Lexer.tokens_ofSource source
  rw [htokens, List.dropLast_concat]
  exact (Lexer.regular_ofSource source).tokensFrom_next.symm

/-- On a text without lexical errors nothing is added where no syntax error is counted. -/
theorem Reaches.diagnostics_eq_of_faultless (h : p.Reaches q) (hp : p.lexicalErrors = 0)
    (hc : q.syntaxErrors = p.syntaxErrors) : q.diagnostics = p.diagnostics := by
  obtain ⟨new, hnew⟩ := h.adds
  have hlexical := hnew.syntaxErrors_eq_iff.1 hc
  have hlength : new.length = 0 := by
    have hadded := hnew.lexical
    rw [List.countP_eq_length.2 fun r hr => decide_eq_true (hlexical r hr)] at hadded
    have hle := q.errorCount_le_lexicalErrors
    have hall := h.lexicalErrors_eq
    omega
  rw [hnew.diagnostics, List.length_eq_zero_iff.1 hlength]
  exact List.append_nil _

end Parser

namespace Parse

open Clite.Parser

variable {α β : Type}

/-- A run of `m` on a text without lexical errors that begins before the tokens `before` adds the diagnostics `new`, and
its result, if there is one, and the tokens left satisfy `post`. -/
def Leaves (m : Parse α) (before : List Token) (new : List Diagnostic) (post : Option α → List Token → Prop) : Prop :=
  ∀ p : Parser, p.Regular → p.lexicalErrors = 0 → p.tokens = before →
    (m.run p).2.diagnostics = p.diagnostics ++ new ∧ post (m.run p).1 (m.run p).2.tokens

variable {m : Parse α} {before rest : List Token} {new later : List Diagnostic} {post : Option α → List Token → Prop}

theorem Leaves.imp {post' : Option α → List Token → Prop} (h : m.Leaves before new post)
    (himp : ∀ a? after, post a? after → post' a? after) : m.Leaves before new post' :=
  fun p hreg hlex hp => ⟨(h p hreg hlex hp).1, himp _ _ (h p hreg hlex hp).2⟩

/-- The terminals that a run leaves tell the tokens that it leaves. -/
theorem Succeeds.leaves (h : m.Succeeds (before.map Token.terminal) fun _ after => after = rest.map Token.terminal)
    (hrest : rest <:+ before) : m.Leaves before [] fun a? after => ∃ a, a? = some a ∧ after = rest := by
  intro p hreg hlex hp
  have hreaches := m.reaches_run p
  obtain ⟨hc, a, ha, hafter⟩ := h p hreg (by rw [← hreg.map_terminal_tokens, hp])
  rw [← (hreaches.regular hreg).map_terminal_tokens] at hafter
  have hlength : (m.run p).2.tokens.length = rest.length := by simpa using congrArg List.length hafter
  have hsuffix := hp ▸ hreaches.tokens_suffix hreg
  refine ⟨?_, a, ha, ?_⟩
  · rw [hreaches.diagnostics_eq_of_faultless hlex hc, List.append_nil]
  · exact (List.suffix_of_suffix_length_le hsuffix hrest hlength.le).eq_of_length hlength

theorem Leaves.bind {f : α → Parse β} {post' : Option β → List Token → Prop} (h : m.Leaves before new post)
    (hsome : ∀ a mid, post (some a) mid → (f a).Leaves mid later post')
    (hnone : ∀ mid, post none mid → later = [] ∧ post' none mid) : (m >>= f).Leaves before (new ++ later) post' := by
  intro p hreg hlex hp
  have hreaches := m.reaches_run p
  obtain ⟨hnew, hpost⟩ := h p hreg hlex hp
  rw [run_bind]
  rcases hr : m.run p with ⟨_ | a, q⟩ <;> rw [hr] at hreaches hnew hpost
  · obtain ⟨rfl, hpost'⟩ := hnone _ hpost
    rw [List.append_nil]
    exact ⟨hnew, hpost'⟩
  · obtain ⟨hlater, hpost'⟩ := hsome a _ hpost q (hreaches.regular hreg) (hreaches.lexicalErrors_eq.trans hlex) rfl
    refine ⟨?_, hpost'⟩
    dsimp only at hnew ⊢
    rw [hlater, hnew, List.append_assoc]

/-- Behind a procedure that succeeds. -/
theorem Succeeds.leaves_bind {f : α → Parse β} {post : Option β → List Token → Prop}
    (h : m.Succeeds (before.map Token.terminal) fun _ after => after = rest.map Token.terminal)
    (hrest : rest <:+ before) (hf : ∀ a, (f a).Leaves rest new post) : (m >>= f).Leaves before new post := by
  refine (h.leaves hrest).bind ?_ ?_
  · rintro a _ ⟨_, -, rfl⟩
    exact hf a
  · rintro _ ⟨_, hnone, -⟩
    cases hnone

/-- Nothing is reported behind a procedure that has a result. -/
theorem Leaves.bind_quiet {f : α → Parse β} {post : α → List Token → Prop} {post' : Option β → List Token → Prop}
    (h : m.Leaves before new fun a? after => ∃ a, a? = some a ∧ post a after)
    (hf : ∀ a mid, post a mid → (f a).Leaves mid [] post') : (m >>= f).Leaves before new post' := by
  have hbind : (m >>= f).Leaves before (new ++ []) post' := by
    refine h.bind ?_ ?_
    · rintro a mid ⟨b, hb, hpost⟩
      cases hb
      exact hf a mid hpost
    · rintro _ ⟨_, hnone, -⟩
      cases hnone
  rwa [List.append_nil] at hbind

/-- Nothing is done behind a procedure that fails. -/
theorem Leaves.bind_none {post : List Token → Prop} (h : m.Leaves before new fun a? after => a? = none ∧ post after)
    (f : α → Parse β) : (m >>= f).Leaves before new fun b? after => b? = none ∧ post after := by
  have hbind : (m >>= f).Leaves before (new ++ []) fun b? after => b? = none ∧ post after := by
    refine h.bind ?_ ?_
    · rintro _ _ ⟨hnone, -⟩
      cases hnone
    · rintro mid ⟨-, hpost⟩
      exact ⟨rfl, rfl, hpost⟩
  rwa [List.append_nil] at hbind

theorem Leaves.attempt (h : m.Leaves before new post) :
    m.attempt.Leaves before new fun a?? after => ∃ a?, a?? = some a? ∧ post a? after :=
  fun p hreg hlex hp => ⟨(h p hreg hlex hp).1, _, rfl, (h p hreg hlex hp).2⟩

/-- Where the parser stays what it is. -/
theorem leaves_of_still (h : ∀ p, (m.run p).2 = p) : m.Leaves before [] fun _ after => after = before := by
  intro p _ _ hp
  rw [h p, List.append_nil]
  exact ⟨rfl, hp⟩

end Parse

end Clite
