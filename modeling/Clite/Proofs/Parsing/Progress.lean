import Clite.Proofs.Parsing.Additions
import Clite.Proofs.Parsing.Descent
import Clite.Proofs.Parsing.Returns

/-!
# Progress

A token that does not fit stays where it is, so it takes a look at every procedure to see that parsing comes to an end.
Each statement but one that begins at the end of its list consumes a token, and so does each declaration; the loops over
them make such rounds until their test fails (`Rounds`), and everything else goes down the grammar
(`Parser.procedures_make_progress`).
-/

namespace Clite

namespace Parser

variable {p q : Parser}

/-- A token at least is consumed on the way from `p` to `q`. -/
def Consumes (p q : Parser) : Prop := ∃ w, w ≠ [] ∧ p.upcoming = w ++ q.upcoming

private theorem size_advance_eq (hreg : p.Regular) (h : p.advance.upcoming = p.upcoming) : p.advance.size = p.size := by
  cases hp : p.upcoming with
  | nil =>
    have hend := upcoming_eq_nil.1 hp
    have hsize : p.size = 0 := by simp [size, hend, hreg.pieces_of_endOfFile hend]
    have hle := p.size_advance_le
    omega
  | cons t rest =>
    rw [hp, upcoming_advance hp] at h
    exact absurd (congrArg List.length h) (by simp)

/-- Where nothing is consumed the bound for what is left stays the same. -/
theorem Reaches.size_eq (h : p.Reaches q) (hreg : p.Regular) (hupcoming : q.upcoming = p.upcoming) :
    q.size = p.size := by
  have hstep {q : Parser} (hq : p.Reaches q) (h : q.advance.upcoming = p.upcoming) : q.upcoming = p.upcoming := by
    have hsuffix := (hq.regular hreg).upcoming_advance_suffix
    rw [h] at hsuffix
    exact (hq.upcoming_suffix hreg).eq_of_length_le hsuffix.length_le
  induction h with
  | refl => rfl
  | @advance q hq ih =>
    have hu := hstep hq hupcoming
    exact (size_advance_eq (hq.regular hreg) (hupcoming.trans hu.symm)).trans (ih hu)
  | report _ _ ih => exact ih (upcoming_report _ _ ▸ hupcoming)
  | @reject q _ hq _ ih =>
    rw [upcoming_report] at hupcoming
    have hu := hstep hq hupcoming
    exact (size_advance_eq (hq.regular hreg) (hupcoming.trans hu.symm)).trans (ih hu)
  | noteProgram _ _ _ ih => exact ih (upcoming_noteProgram _ _ _ ▸ hupcoming)

theorem Reaches.consumes (h : p.Reaches q) (hreg : p.Regular) (hsize : q.size < p.size) : p.Consumes q := by
  obtain ⟨w, hw⟩ := h.upcoming_suffix hreg
  refine ⟨w, ?_, hw.symm⟩
  rintro rfl
  exact absurd (h.size_eq hreg hw) (Nat.ne_of_lt hsize)

theorem regular_ofLexer_nextMany (source : String) (n : Nat) :
    (ofLexer ((Lexer.ofSource source).nextMany n).2).Regular := by
  have hlexer : ((Lexer.ofSource source).nextMany n).2.Regular :=
    Lexer.nextMany_of_next (fun l hl => hl.of_suffix l.pieces_next_suffix) (Lexer.regular_ofSource source) n
  exact ⟨hlexer.of_suffix (Lexer.pieces_next_suffix _), hlexer.pieces_of_endOfFile⟩

end Parser

/-- A loop from `p` to `q`: as long as `test` holds a round is made, in each of which a token is consumed. -/
inductive Rounds (test : Parser → Bool) (round : Parser → Parser) : Parser → Parser → Prop
  | stop {p : Parser} : test p = false → Rounds test round p p
  | round {p q : Parser} : test p = true → p.Consumes (round p) → Rounds test round (round p) q → Rounds test round p q

theorem Rounds.stops {test : Parser → Bool} {round : Parser → Parser} {p q : Parser} (h : Rounds test round p q) :
    test q = false := by
  induction h with
  | stop hstop => exact hstop
  | round _ _ _ ih => exact ih

namespace Parse

open Clite.Parser

theorem consumes_statementIn (room : Nat) {p : Parser} (hreg : p.Regular) (h : p.atListEnd = false) :
    p.Consumes ((statementIn room).1.run p).2 :=
  ((statementIn room).1.reaches_run p).consumes hreg ((statementIn room).2 p h)

/-- At the end of a list no statement begins. -/
theorem statementIn_of_atListEnd (room : Nat) {p : Parser} (h : p.atListEnd = true) :
    (statementIn room).1.run p = (none, p.report (.expectedStatement p.current)) := by
  have hkind : p.current.kind = .rightBrace ∨ p.current.kind = .endOfFile := by simpa [atListEnd] using h
  have hstray : stray.run p = (none, p.report (.expectedStatement p.current)) := by simp [stray, h]
  rw [← hstray]
  cases room <;> rcases hkind with hk | hk <;> simp only [statementIn, statementOver, run_bind, run_current, hk]

theorem rounds_statementsOnto {statement : Parse Stmt} (hadv : statement.Advances) (found : List Stmt) {p : Parser}
    (hreg : p.Regular) :
    Rounds (!·.atListEnd) (fun q => (statement.run q).2) p (statementsOnto statement hadv found p).2 := by
  fun_induction statementsOnto statement hadv found p with
  | case1 found p hend => exact .stop (by simp [hend])
  | case2 found p hend r ih =>
    have hreaches := statement.reaches_run p
    refine .round (by simp [hend]) ?_ (ih (hreaches.regular hreg))
    exact hreaches.consumes hreg (hadv p (by simpa using hend))

theorem rounds_declarationsOnto (found : List Decl) {p : Parser} (hreg : p.Regular) :
    Rounds (·.current.kind.isTypeName) (fun q => (declaration.run q).2) p (declarationsOnto found p).2 := by
  fun_induction declarationsOnto found p with
  | case1 found p htype r ih =>
    have hreaches := declaration.reaches_run p
    exact .round htype (hreaches.consumes hreg (size_declaration_lt htype)) (ih (hreaches.regular hreg))
  | case2 found p htype => exact .stop (by simpa using htype)

end Parse

namespace Parser

/-- From every parser on a text every construct comes to an end, whatever is open already, and with nothing open it is
what is read.  A statement consumes a token unless its list is at an end, and there it adds one error and nothing is
read; statements are read in rounds up to the end of the list, and declarations in rounds as long as a type name comes,
each of which consumes a token. -/
theorem procedures_make_progress {source : String} {skipped : Nat} {p : Parser}
    (h : (ofLexer ((Lexer.ofSource source).nextMany skipped).2).Reaches p) :
    (∀ (c : Construct) (depth deepest : Nat), ∃ fragment s,
      Descent.Ends c.descend ⟨p, depth, deepest⟩ fragment s ∧ (depth = 0 → (fragment, s.parser) = c.read p)) ∧
    (∀ room,
      (p.atListEnd = false → p.Consumes ((Parse.statementIn room).1.run p).2) ∧
      (p.atListEnd = true → ∃ q, (Parse.statementIn room).1.run p = (none, q) ∧
        q.current = p.current ∧ q.upcoming = p.upcoming ∧
        p.Adds [⟨.syntactic, (SyntaxError.expectedStatement p.current).message, p.current.position⟩] q) ∧
      Rounds (!·.atListEnd) (fun q => ((Parse.statementIn room).1.run q).2) p ((Parse.statementsIn room).run p).2 ∧
      ((Parse.statementsIn room).run p).2.atListEnd = true) ∧
    Rounds (·.current.kind.isTypeName) (fun q => (Parse.declaration.run q).2) p (Parse.declarations.run p).2 ∧
    (Parse.declarations.run p).2.current.kind.isTypeName = false := by
  have hreg : p.Regular := h.regular (regular_ofLexer_nextMany source skipped)
  have hdeclarations := Parse.rounds_declarationsOnto [] hreg
  refine ⟨fun c depth deepest => ?_, fun room => ⟨Parse.consumes_statementIn room hreg, fun hend => ?_, ?_⟩,
    hdeclarations, hdeclarations.stops⟩
  · obtain ⟨top, hends, -⟩ := c.follows_descend depth ⟨p, depth, deepest⟩ rfl
    refine ⟨_, _, hends, ?_⟩
    rintro rfl
    rw [Nat.sub_zero, c.readIn_maxNesting]
  · refine ⟨p.report (.expectedStatement p.current), ?_, rfl, upcoming_report _ _, .report _ _⟩
    exact Parse.statementIn_of_atListEnd room hend
  · have hstatements := Parse.rounds_statementsOnto (Parse.statementIn room).2 [] hreg
    have hend : (!((Parse.statementsIn room).run p).2.atListEnd) = false := hstatements.stops
    exact ⟨hstatements, by simpa using hend⟩

/-- Behind the first token of the text, where an assignment has failed in front of the stray `else`. -/
theorem procedures_make_progress_stray :
    let start := ofLexer ((Lexer.ofSource "; x = ( else int").nextMany 1).2
    let p := (start.readAll [.statement]).2
    start.Reaches p ∧ p.current.kind = .elseWord ∧ p.Consumes (Parse.statement.run p).2 := by
  intro start p
  have hreaches : start.Reaches p := reaches_readAll start [.statement]
  have hkind : p.current.kind = .elseWord := by decide +kernel
  obtain ⟨-, hstatement, -⟩ := procedures_make_progress hreaches
  exact ⟨hreaches, hkind, (hstatement maxNesting).1 (by simp [atListEnd, hkind])⟩

end Parser

end Clite
