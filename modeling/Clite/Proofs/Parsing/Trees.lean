import Clite.Proofs.Parsing.Recovery
import Clite.Proofs.Parsing.Reports

/-!
# The trees of a session

Whatever the text and whatever is asked for, the trees that a parser returns are drawn, one behind the other, from the
terminals of the text (`Parser.drawn_readAll`).  So every one of them is well-formed (`Parser.wellFormed_of_readAll`),
and the names and values in a program stand in it as they stand in the text, each of them once
(`Parser.atoms_readProgram`).
-/

namespace Clite

open Clite.Parser

/-- The trees of what comes back. -/
def Fragment.roots : Fragment → List Node
  | program p => [.program p]
  | declarations ds => ds.map .decl
  | statements ss => ss.map .stmt
  | statement s? => s?.elim [] fun s => [.stmt s]
  | expression e? => e?.elim [] fun e => [.expr e]

/-! ### Sessions -/

theorem Construct.drawn_read (c : Construct) {p : Parser} (hreg : p.Regular) :
    Drawn maxNesting p.upcoming (c.read p).1.roots (c.read p).2.upcoming := by
  have hstatement := Parse.drawsStmt_statementIn maxNesting
  have hprimary := Parse.drawsExpr_primaryIn maxNesting
  cases c with
  | program =>
    have hrun := Parse.drawn_run Parse.drawn_program hreg
    cases hr : (Parse.program.run p).1 with
    | none =>
      have hnothing : Drawn maxNesting p.upcoming [] (Parse.program.run p).2.upcoming := by rwa [hr] at hrun
      have hempty : Drawn maxNesting p.upcoming [.program .empty] (Parse.program.run p).2.upcoming :=
        hnothing.node rfl rfl trivial
      simpa [read, readProgram, hr, Fragment.roots] using hempty
    | some program => simpa [read, readProgram, hr, Fragment.roots] using hrun
  | declarations =>
    exact Parse.drawn_run (Parse.drawn_declarations maxNesting) hreg
  | statements =>
    exact Parse.drawn_run (Parse.drawn_statementsOver hstatement) hreg
  | statement =>
    exact Parse.drawn_run (fun before => (hstatement before).imp fun _ _ h => h.1) hreg
  | expression => exact Parse.drawn_run (Parse.drawsExpr_expressionIn maxNesting) hreg
  | level level => exact Parse.drawn_run (Parse.drawsExpr_atLevel level) hreg
  | factor => exact Parse.drawn_run hprimary.factorOver hreg
  | primary => exact Parse.drawn_run hprimary hreg

namespace Parser

theorem drawn_readAll {p : Parser} (hreg : p.Regular) (constructs : List Construct) :
    Drawn maxNesting p.upcoming ((p.readAll constructs).1.flatMap Fragment.roots) (p.readAll constructs).2.upcoming := by
  induction constructs generalizing p with
  | nil => exact .skip (List.suffix_refl _)
  | cons c cs ih =>
    have hread := c.drawn_read hreg
    have hrest := ih ((reaches_read c p).regular hreg)
    exact hread.append hrest

/-- Every terminal of a text was scanned. -/
theorem wellFormed_of_mem_upcoming {source : String} {t : Terminal} (h : t ∈ (ofSource source).upcoming) :
    t.WellFormed := by
  rw [upcoming_ofSource] at h
  obtain ⟨piece, hpiece, ht⟩ := List.mem_filterMap.1 h
  obtain ⟨rest, hfits⟩ := Piece.exists_fits_of_mem_split hpiece
  exact hfits.wellFormed ht

/-- What a parser returns is well-formed, whatever the text, and whatever was read before. -/
theorem wellFormed_of_readAll (source : String) (constructs : List Construct) :
    ∀ fragment ∈ ((ofSource source).readAll constructs).1, ∀ root ∈ fragment.roots, root.WellFormed := by
  intro fragment hfragment root hroot
  have hdrawn := drawn_readAll (regular_ofSource source) constructs
  have hmem : root ∈ ((ofSource source).readAll constructs).1.flatMap Fragment.roots :=
    List.mem_flatMap.2 ⟨fragment, hfragment, hroot⟩
  refine ⟨fun a ha => ?_, hdrawn.elses root hmem, hdrawn.nesting root hmem⟩
  -- each atom of the tree is the atom of a terminal of the text
  have hatom : a ∈ (ofSource source).upcoming.filterMap Terminal.atom? :=
    hdrawn.atoms.subset (List.mem_append_left _ (List.mem_flatMap.2 ⟨root, hmem, ha⟩))
  obtain ⟨t, ht, hta⟩ := List.mem_filterMap.1 hatom
  exact (wellFormed_of_mem_upcoming ht).isWritten hta

/-- An operand, a parenthesis and a value are missing in front of the conditional, in it and behind it. -/
theorem wellFormed_of_readAll_faulty :
    let conditional : Stmt := .ifElse (.var "a")
      (.loop (.var "b") (.assignment "c" (.unary (.convert .bool) (.literal (.char 'c')))))
      (.assignment "d" (.literal (.int 7)))
    let source := "x + * if (a) while (b) c = bool('c' else d = 7; e = 2147483648"
    .statements [conditional, .skip] ∈ ((ofSource source).readAll [.expression, .statements]).1 ∧
      (Node.stmt conditional).WellFormed := by
  intro conditional source
  have hread : .statements [conditional, .skip] ∈ ((ofSource source).readAll [.expression, .statements]).1 := by
    decide +kernel
  exact ⟨hread, wellFormed_of_readAll source _ _ hread _ (List.mem_cons_self ..)⟩

/-- The atoms of a text are those of its tokens. -/
theorem filterMap_atom?_upcoming (source : String) :
    (ofSource source).upcoming.filterMap Terminal.atom? =
      (Lexer.ofSource source).tokenize.1.dropLast.filterMap Token.atom? := by
  rw [ofSource, upcoming_ofLexer, Lexer.upcoming, List.filterMap_map]
  exact List.filterMap_congr fun t _ => Terminal.atom?_terminal t

/-- The names and values in a program, from left to right, are a selection of the identifiers and the values of literals
in the text, in their order: recovery from errors may leave some out, and it adds, repeats and moves none. -/
theorem atoms_readProgram (source : String) :
    (Node.program (ofSource source).readProgram.1).atoms.Sublist
      ((Lexer.ofSource source).tokenize.1.filterMap Token.atom?) := by
  have hdrawn := Construct.program.drawn_read (regular_ofSource source)
  have hatoms := (List.sublist_append_left _ _).trans hdrawn.atoms
  rw [filterMap_atom?_upcoming] at hatoms
  have htokens := (List.dropLast_sublist (Lexer.ofSource source).tokenize.1).filterMap Token.atom?
  have hroots : (Construct.program.read (ofSource source)).1.roots.flatMap Node.atoms =
      (Node.program (ofSource source).readProgram.1).atoms := List.flatMap_singleton _ _
  rw [← hroots]
  exact hatoms.trans htokens

end Parser

end Clite
