import Clite.Parser.Program
import Clite.Proofs.Lexing.Tokens
import Clite.Proofs.Parsing.Grammar

/-!
# Clean runs

A run of a parsing procedure is clean if it reports no syntax error.  What a clean run does is told by the
terminals that are still to come: `m.Clean before post` says what is true after every clean run of `m` that begins
before the terminals `before`, and `m.Succeeds before post` says that such a run is clean indeed.  Both go through
a sequence of procedures one by one (`Clean.bind`, `Succeeds.bind`).
-/

namespace Clite

/-! ### What is still to come -/

/-- The terminals still to be scanned, up to the end of the file. -/
def Lexer.upcoming (l : Lexer) : List Terminal := l.tokenize.1.dropLast.map Token.terminal

theorem Lexer.upcoming_next (l : Lexer) :
    l.upcoming = if l.next.1.kind = .endOfFile then [] else l.next.1.terminal :: l.next.2.upcoming := by
  have hne : l.next.2.tokenize.1 ≠ [] := by
    rw [tokenize_next]
    split <;> simp
  rw [upcoming, tokenize_next]
  split
  · rfl
  · rw [List.dropLast_cons_of_ne_nil hne]
    rfl

/-- What is to come hangs on the pieces alone. -/
theorem Lexer.upcoming_eq (l : Lexer) :
    l.upcoming = (l.pieces.filterMap Piece.token?).takeWhile fun t => t.1 ≠ .endOfFile := by
  induction l using next_induction with
  | next l ih =>
    rw [upcoming_next]
    rcases l.next_cases with ⟨hgaps, hnext⟩ | ⟨gaps, piece, rest, kind, lexeme, hp, hgaps, ht, hnext⟩
    · have he : l.next.1.kind = .endOfFile := by rw [hnext]; rfl
      rw [if_pos he, List.filterMap_eq_nil_iff.2 hgaps, List.takeWhile_nil]
    · rw [hnext] at ih ⊢
      rw [hp, List.filterMap_append, List.filterMap_eq_nil_iff.2 hgaps, List.filterMap_cons_some ht,
        List.nil_append, List.takeWhile_cons]
      by_cases hk : kind = .endOfFile
      · simp [hk]
      · rw [if_neg hk, ih hk]
        simp [hk, Token.terminal]

/-- Where no piece stands for the end of the file all pieces are to come. -/
theorem Lexer.Regular.upcoming_eq {l : Lexer} (h : l.Regular) : l.upcoming = l.pieces.filterMap Piece.token? := by
  have hkinds : ∀ t ∈ l.pieces.filterMap Piece.token?, decide (t.1 ≠ .endOfFile) = true := by
    intro t ht
    obtain ⟨piece, hpiece, hterminal⟩ := List.mem_filterMap.1 ht
    exact decide_eq_true (h piece hpiece t.1 t.2 hterminal)
  rw [Lexer.upcoming_eq, List.takeWhile_eq_self_iff]
  exact hkinds

namespace Parser

/-- The terminals that a parser has before it. -/
def upcoming (p : Parser) : List Terminal :=
  if p.current.kind = .endOfFile then [] else p.current.terminal :: p.lexer.upcoming

/-- The kind that comes next. -/
def headKind : List Terminal → TokenKind
  | [] => .endOfFile
  | t :: _ => t.1

theorem exists_of_headKind {k : TokenKind} (hk : k ≠ .endOfFile) {w : List Terminal} (h : headKind w = k) :
    ∃ s rest, w = (k, s) :: rest := by
  cases w with
  | nil => exact absurd h.symm hk
  | cons t rest => exact ⟨t.2, rest, by rw [← h]; rfl⟩

theorem kind_current (p : Parser) : p.current.kind = headKind p.upcoming := by
  unfold upcoming
  split
  · next h => exact h
  · rfl

theorem terminal_current {p : Parser} {t : Terminal} {rest : List Terminal} (h : p.upcoming = t :: rest) :
    p.current.terminal = t := by
  unfold upcoming at h
  split at h
  · cases h
  · exact (List.cons.inj h).1

theorem upcoming_ofLexer (l : Lexer) : (ofLexer l).upcoming = l.upcoming := l.upcoming_next.symm

theorem upcoming_ofSource (source : String) :
    (ofSource source).upcoming = (Piece.split source.toList).filterMap Piece.token? :=
  (upcoming_ofLexer _).trans (Lexer.regular_ofSource source).upcoming_eq

theorem upcoming_advance {p : Parser} {t : Terminal} {rest : List Terminal} (h : p.upcoming = t :: rest) :
    p.advance.upcoming = rest := by
  unfold upcoming at h
  split at h
  · cases h
  · rw [← (List.cons.inj h).2, p.lexer.upcoming_next]
    rfl

/-- Before the end of the file what is to come begins with the current token. -/
theorem upcoming_eq_cons {k : TokenKind} (hk : k ≠ .endOfFile) {p : Parser} (h : p.current.kind = k) :
    p.upcoming = (k, p.current.lexeme) :: p.advance.upcoming := by
  rw [kind_current] at h
  obtain ⟨s, rest, hp⟩ := exists_of_headKind hk h
  have ht := terminal_current hp
  rw [upcoming_advance hp, hp, ← ht, Token.terminal, kind_current, h]

@[simp] theorem upcoming_report (p : Parser) (e : SyntaxError) : (p.report e).upcoming = p.upcoming := by
  simp [upcoming, report, Lexer.upcoming_eq]

@[simp] theorem upcoming_noteProgram (p : Parser) (ds ss : Nat) : (p.noteProgram ds ss).upcoming = p.upcoming := by
  simp [upcoming, noteProgram, Lexer.emit, Lexer.upcoming_eq]

/-- A parser on a text: at the end of the file there is nothing left to be scanned. -/
structure Regular (p : Parser) : Prop where
  lexer : p.lexer.Regular
  pieces_of_endOfFile : p.current.kind = .endOfFile → p.lexer.pieces = []

theorem regular_ofSource (source : String) : (ofSource source).Regular where
  lexer := (Lexer.regular_ofSource source).of_suffix (Lexer.pieces_next_suffix _)
  pieces_of_endOfFile := (Lexer.regular_ofSource source).pieces_of_endOfFile

theorem Regular.advance {p : Parser} (h : p.Regular) : p.advance.Regular where
  lexer := h.lexer.of_suffix p.lexer.pieces_next_suffix
  pieces_of_endOfFile := h.lexer.pieces_of_endOfFile

theorem Regular.report {p : Parser} (h : p.Regular) (e : SyntaxError) : (p.report e).Regular := ⟨h.1, h.2⟩

theorem Reaches.regular {p q : Parser} (h : p.Reaches q) (hp : p.Regular) : q.Regular := by
  induction h with
  | refl => exact hp
  | advance _ ih => exact ih.advance
  | report _ _ ih => exact ih.report _
  | reject _ _ ih => exact ih.advance.report _
  | noteProgram _ _ _ ih => exact ⟨ih.1, ih.2⟩

theorem upcoming_eq_nil {p : Parser} : p.upcoming = [] ↔ p.current.kind = .endOfFile := by
  unfold upcoming
  split <;> simp_all

/-- Behind the end of the file there is the end of the file again. -/
theorem Regular.upcoming_advance_of_nil {p : Parser} (h : p.Regular) (hp : p.upcoming = []) :
    p.advance.upcoming = [] := by
  have hnil := h.pieces_of_endOfFile (upcoming_eq_nil.1 hp)
  rw [upcoming_eq_nil]
  rcases p.lexer.next_cases with ⟨-, hnext⟩ | ⟨gaps, piece, rest, kind, lexeme, hpieces, -⟩
  · rw [Parser.advance, hnext]
    rfl
  · simp [hnil] at hpieces

/-! ### Counting errors -/

@[simp] theorem syntaxErrors_advance (p : Parser) : p.advance.syntaxErrors = p.syntaxErrors := rfl

@[simp] theorem syntaxErrors_report (p : Parser) (e : SyntaxError) :
    (p.report e).syntaxErrors = p.syntaxErrors + 1 := rfl

@[simp] theorem syntaxErrors_noteProgram (p : Parser) (ds ss : Nat) :
    (p.noteProgram ds ss).syntaxErrors = p.syntaxErrors := rfl

theorem Reaches.syntaxErrors_le {p q : Parser} (h : p.Reaches q) : p.syntaxErrors ≤ q.syntaxErrors := by
  induction h with
  | refl => exact Nat.le_refl _
  | advance _ ih => exact ih
  | report _ _ ih => exact Nat.le_succ_of_le ih
  | reject _ _ ih => exact Nat.le_succ_of_le ih
  | noteProgram _ _ _ ih => exact ih

/-- If nothing is reported on the whole way then nothing is on its first part. -/
theorem Reaches.syntaxErrors_eq {p q r : Parser} (h : p.Reaches q) (h' : q.Reaches r)
    (hc : r.syntaxErrors = p.syntaxErrors) : q.syntaxErrors = p.syntaxErrors :=
  Nat.le_antisymm (hc ▸ h'.syntaxErrors_le) h.syntaxErrors_le

end Parser

namespace Parse

open Clite.Parser

variable {α β : Type}

/-! ### Clean runs -/

/-- Every clean run of `m` on a text that begins before the terminals `before` has a result, and this and the
terminals left satisfy `post`. -/
def Clean (m : Parse α) (before : List Terminal) (post : α → List Terminal → Prop) : Prop :=
  ∀ p : Parser, p.Regular → p.upcoming = before → (m.run p).2.syntaxErrors = p.syntaxErrors →
    ∃ a, (m.run p).1 = some a ∧ post a (m.run p).2.upcoming

/-- Every run of `m` on a text that begins before the terminals `before` is clean, and its result and the terminals
left satisfy `post`. -/
def Succeeds (m : Parse α) (before : List Terminal) (post : α → List Terminal → Prop) : Prop :=
  ∀ p : Parser, p.Regular → p.upcoming = before → (m.run p).2.syntaxErrors = p.syntaxErrors ∧
    ∃ a, (m.run p).1 = some a ∧ post a (m.run p).2.upcoming

variable {m : Parse α} {before : List Terminal} {post : α → List Terminal → Prop}

/-- A clean run taken apart. -/
theorem Clean.run_eq (h : m.Clean before post) {p : Parser} (hreg : p.Regular) (hp : p.upcoming = before)
    (hc : (m.run p).2.syntaxErrors = p.syntaxErrors) :
    ∃ a q, m.run p = (some a, q) ∧ q.Regular ∧ q.syntaxErrors = p.syntaxErrors ∧ post a q.upcoming := by
  obtain ⟨a, ha, hpost⟩ := h p hreg hp hc
  exact ⟨a, (m.run p).2, Prod.ext ha rfl, (m.reaches_run p).regular hreg, hc, hpost⟩

theorem Succeeds.run_eq (h : m.Succeeds before post) {p : Parser} (hreg : p.Regular) (hp : p.upcoming = before) :
    ∃ a q, m.run p = (some a, q) ∧ q.Regular ∧ q.syntaxErrors = p.syntaxErrors ∧ post a q.upcoming := by
  obtain ⟨hc, a, ha, hpost⟩ := h p hreg hp
  exact ⟨a, (m.run p).2, Prod.ext ha rfl, (m.reaches_run p).regular hreg, hc, hpost⟩

theorem Succeeds.clean (h : m.Succeeds before post) : m.Clean before post := fun p hreg hp _ => (h p hreg hp).2

theorem Clean.imp {post' : α → List Terminal → Prop} (h : m.Clean before post)
    (himp : ∀ a after, post a after → post' a after) : m.Clean before post' := by
  intro p hreg hp hc
  obtain ⟨a, ha, hpost⟩ := h p hreg hp hc
  exact ⟨a, ha, himp _ _ hpost⟩

theorem Succeeds.imp {post' : α → List Terminal → Prop} (h : m.Succeeds before post)
    (himp : ∀ a after, post a after → post' a after) : m.Succeeds before post' := by
  intro p hreg hp
  obtain ⟨hc, a, ha, hpost⟩ := h p hreg hp
  exact ⟨hc, a, ha, himp _ _ hpost⟩

/-- If a sequence is clean then so are its parts. -/
theorem Clean.bind {f : α → Parse β} {post' : β → List Terminal → Prop} (h : m.Clean before post)
    (hf : ∀ a mid, post a mid → (f a).Clean mid post') : (m >>= f).Clean before post' := by
  intro p hreg hp hc
  have hreaches := m.reaches_run p
  have hclean : (m.run p).2.syntaxErrors = p.syntaxErrors := by
    rw [run_bind] at hc
    split at hc
    · next q hm => rw [hm]; exact hc
    · next a q hm =>
      -- an error of the first part would still be counted at the end
      rw [hm] at hreaches ⊢
      exact hreaches.syntaxErrors_eq ((f a).reaches_run q) hc
  obtain ⟨a, q, hm, hq, hcq, hpost⟩ := h.run_eq hreg hp hclean
  rw [run_bind, hm] at hc ⊢
  exact hf a q.upcoming hpost q hq rfl (hc.trans hcq.symm)

theorem Succeeds.bind {f : α → Parse β} {post' : β → List Terminal → Prop} (h : m.Succeeds before post)
    (hf : ∀ a mid, post a mid → (f a).Succeeds mid post') : (m >>= f).Succeeds before post' := by
  intro p hreg hp
  obtain ⟨a, q, hm, hq, hc, hpost⟩ := h.run_eq hreg hp
  obtain ⟨hc', hrest⟩ := hf a q.upcoming hpost q hq rfl
  rw [run_bind, hm]
  exact ⟨hc'.trans hc, hrest⟩

/-- A run that reports an error is not clean. -/
theorem clean_of_lt (h : ∀ p : Parser, p.upcoming = before → p.syntaxErrors < (m.run p).2.syntaxErrors) :
    m.Clean before post :=
  fun p _ hp hc => absurd (h p hp) (by omega)

/-! ### The elementary procedures -/

theorem clean_fail (error : Token → SyntaxError) (h : ∀ t, (error t).position = t.position) :
    (fail error h : Parse α).Clean before post :=
  clean_of_lt fun p _ => Nat.lt_succ_self p.syntaxErrors

theorem succeeds_pure {a : α} (h : post a before) : (pure a : Parse α).Succeeds before post := by
  rintro p - rfl
  exact ⟨rfl, a, rfl, h⟩

theorem succeeds_current :
    current.Succeeds before fun t after => t.kind = headKind before ∧ after = before := by
  rintro p - rfl
  exact ⟨rfl, p.current, rfl, p.kind_current, rfl⟩

theorem succeeds_take {t : Terminal} {rest : List Terminal} :
    take.Succeeds (t :: rest) fun token after => token.terminal = t ∧ after = rest :=
  fun p _ hp => ⟨rfl, p.current, rfl, terminal_current hp, upcoming_advance hp⟩

theorem succeeds_noteProgram (ds ss : Nat) : (noteProgram ds ss).Succeeds before fun _ after => after = before :=
  fun p _ hp => ⟨rfl, (), rfl, (p.upcoming_noteProgram ds ss).trans hp⟩

theorem Clean.attempt (h : m.Clean before post) :
    m.attempt.Clean before fun a? after => ∃ a, a? = some a ∧ post a after :=
  fun p hreg hp hc => ⟨_, rfl, h p hreg hp hc⟩

theorem Succeeds.attempt (h : m.Succeeds before post) :
    m.attempt.Succeeds before fun a? after => ∃ a, a? = some a ∧ post a after :=
  fun p hreg hp => ⟨(h p hreg hp).1, _, rfl, (h p hreg hp).2⟩

variable {k : TokenKind} {context s : String} {rest : List Terminal}

theorem clean_expect (hk : k ≠ .endOfFile) :
    (expect k context).Clean before fun t after => before = (k, t.lexeme) :: after := by
  rintro p - rfl hc
  rw [run_expect] at hc ⊢
  split at hc
  · next h =>
    rw [if_pos h]
    exact ⟨p.current, rfl, upcoming_eq_cons hk h⟩
  · simp at hc

theorem succeeds_expect :
    (expect k context).Succeeds ((k, s) :: rest) fun t after => t.lexeme = s ∧ after = rest := by
  intro p _ hp
  have ht := terminal_current hp
  have hkind : p.current.kind = k := congrArg Prod.fst ht
  rw [run_expect, if_pos hkind]
  exact ⟨rfl, p.current, rfl, congrArg Prod.snd ht, upcoming_advance hp⟩

theorem clean_require (hk : k ≠ .endOfFile) :
    (require k context).Clean before fun _ after => ∃ s, before = (k, s) :: after :=
  (clean_expect hk).attempt.bind fun _ _ ⟨_, _, h⟩ => (succeeds_pure ⟨_, h⟩).clean

theorem succeeds_require : (require k context).Succeeds ((k, s) :: rest) fun _ after => after = rest :=
  succeeds_expect.attempt.bind fun _ _ ⟨_, _, h⟩ => succeeds_pure h.2

/-- The end of the file stays where it is. -/
theorem clean_require_endOfFile :
    (require .endOfFile context).Clean before fun _ after => before = [] ∧ after = [] := by
  rintro p hreg rfl hc
  rw [run_require] at hc ⊢
  split at hc
  · next h =>
    have hnil := upcoming_eq_nil.2 h
    rw [if_pos h]
    exact ⟨(), rfl, hnil, hreg.upcoming_advance_of_nil hnil⟩
  · simp at hc

theorem succeeds_require_endOfFile : (require .endOfFile context).Succeeds [] fun _ after => after = [] := by
  intro p hreg hp
  rw [run_require, if_pos (upcoming_eq_nil.1 hp)]
  exact ⟨rfl, (), rfl, hreg.upcoming_advance_of_nil hp⟩

theorem succeeds_accept (hk : k ≠ .endOfFile) :
    (accept k).Succeeds before fun found after =>
      (found = true ∧ ∃ s, before = (k, s) :: after) ∨ (found = false ∧ headKind before ≠ k ∧ after = before) := by
  rintro p - rfl
  rw [run_accept]
  split
  · next h => exact ⟨rfl, true, rfl, .inl ⟨rfl, _, upcoming_eq_cons hk h⟩⟩
  · next h => exact ⟨rfl, false, rfl, .inr ⟨rfl, p.kind_current ▸ h, rfl⟩⟩

end Parse

end Clite
