import Clite.Pipeline
import Clite.Proofs.Parsing.Statement

/-!
# Reading programs

A program is accepted just when it has no lexical error and its terminals are a phrase of `Grammar.Program`, and
what is returned is the tree of that phrase.  The list of declarations ends where the grammar ends it, for no
statement begins with the name of a type.  A clean run comes to the end of the file, and there every lexical error
of the text has been reported (`Reaches.lexicalErrors_eq`).
-/

namespace Clite

namespace Parse

open Clite.Parser Clite.Grammar

/-! ### Declarations -/

private theorem namesOnto_of_name {p q : Parser} {name : Token}
    (h : (expect .identifier "declaration").run p = (some name, q)) (found : List String) :
    namesOnto found p =
      if q.current.kind = .comma then namesOnto (name.lexeme :: found) q.advance
      else ((name.lexeme :: found).reverse, q) := by
  rw [namesOnto]
  split
  · next h' => rw [h] at h'; cases h'
  · next h' =>
    rw [h] at h'
    cases h'
    rfl

private theorem sound_namesOnto (found : List String) (p : Parser) (hreg : p.Regular)
    (hc : (namesOnto found p).2.syntaxErrors = p.syntaxErrors) :
    ∃ w xs, (namesOnto found p).1 = found.reverse ++ xs ∧ p.upcoming = w ++ (namesOnto found p).2.upcoming ∧
      Names w xs := by
  have hname (before : List Terminal) : (expect .identifier "declaration").Clean before fun t after =>
      before = (.identifier, t.lexeme) :: after := clean_expect (by simp)
  fun_induction namesOnto found p with
  | case1 found p q h =>
    obtain ⟨t, q', h', -⟩ := (hname _).run_eq hreg rfl (by rw [h]; exact hc)
    rw [h] at h'
    cases h'
  | case2 found p name q h hcomma ih =>
    have hreaches := (expect .identifier "declaration").reaches_run p
    rw [h] at hreaches
    have hclean : q.syntaxErrors = p.syntaxErrors :=
      hreaches.syntaxErrors_eq (.trans (.advance .refl) (reaches_namesOnto ..)) hc
    obtain ⟨t, q', h', hq, -, hp⟩ := (hname _).run_eq hreg rfl (by rw [h]; exact hclean)
    obtain ⟨rfl, rfl⟩ : name = t ∧ q = q' := by simpa [h] using h'
    obtain ⟨w, xs, hresult, hw, hxs⟩ := ih hq.advance (hc.trans hclean.symm)
    refine ⟨(.identifier, name.lexeme) :: (.comma, q.current.lexeme) :: w, name.lexeme :: xs, ?_, ?_, .more hxs⟩
    · rw [hresult]
      simp
    · rw [hp, upcoming_eq_cons (by simp) hcomma, hw]
      rfl
  | case3 found p name q h hcomma =>
    obtain ⟨t, q', h', -, -, hp⟩ := (hname _).run_eq hreg rfl (by rw [h]; exact hc)
    obtain ⟨rfl, rfl⟩ : name = t ∧ q = q' := by simpa [h] using h'
    exact ⟨_, [name.lexeme], by simp, hp, .one⟩

private theorem complete_namesOnto {w : List Terminal} {xs : List String} (h : Names w xs) {rest : List Terminal}
    (hrest : headKind rest ≠ .comma) (found : List String) {p : Parser} (hreg : p.Regular)
    (hp : p.upcoming = w ++ rest) :
    (namesOnto found p).2.syntaxErrors = p.syntaxErrors ∧ (namesOnto found p).1 = found.reverse ++ xs ∧
      (namesOnto found p).2.upcoming = rest := by
  have hname (x : String) (rest : List Terminal) : (expect .identifier "declaration").Succeeds
      ((.identifier, x) :: rest) fun t after => t.lexeme = x ∧ after = rest := succeeds_expect
  induction h generalizing found p with
  | @one x =>
    obtain ⟨name, q, h, -, hc, rfl, hafter⟩ := (hname x _).run_eq hreg hp
    have hstop : ¬ q.current.kind = .comma := by rwa [kind_current, hafter]
    rw [namesOnto_of_name h, if_neg hstop]
    exact ⟨hc, by simp, hafter⟩
  | @more w xs x s hw ih =>
    obtain ⟨name, q, h, hq, hc, rfl, hafter⟩ := (hname x _).run_eq hreg hp
    have hcomma : q.current.kind = .comma := by rw [kind_current, hafter]; rfl
    obtain ⟨hc', hresult, hend⟩ := ih (name.lexeme :: found) hq.advance (upcoming_advance hafter)
    rw [namesOnto_of_name h, if_pos hcomma]
    refine ⟨hc'.trans hc, ?_, hend⟩
    rw [hresult]
    simp

theorem sound_names : names.Sound Names := by
  rintro before p hreg rfl hc
  obtain ⟨w, xs, hresult, hw, hxs⟩ := sound_namesOnto [] p hreg hc
  exact ⟨xs, congrArg some hresult, w, hw, hxs⟩

theorem complete_names : names.Complete Names fun rest => headKind rest ≠ .comma := by
  intro w xs rest h hrest p hreg hp
  obtain ⟨hc, hresult, hafter⟩ := complete_namesOnto h hrest [] hreg hp
  exact ⟨hc, _, congrArg some hresult, rfl, hafter⟩

theorem sound_declaration : declaration.Sound Declaration := by
  intro before
  refine (clean_typeName before).bind ?_
  rintro type _ ⟨s₁, rfl⟩
  refine (sound_names _).bind ?_
  rintro xs _ ⟨w, rfl, hw⟩
  refine (clean_require (by decide)).bind ?_
  rintro - after ⟨s₂, rfl⟩
  exact (succeeds_pure ⟨_, by simp, .intro s₁ s₂ hw⟩).clean

theorem complete_declaration : declaration.Complete Declaration fun _ => True := by
  rintro _ _ rest ⟨s₁, s₂, hw⟩ -
  rw [List.cons_append, List.append_assoc]
  refine (succeeds_typeName _ _ _).bind ?_
  rintro _ _ ⟨rfl, rfl⟩
  refine (complete_names _ _ _ hw (by simp [headKind])).bind ?_
  rintro _ _ ⟨rfl, rfl⟩
  refine succeeds_require.bind ?_
  rintro - _ rfl
  exact succeeds_pure ⟨rfl, rfl⟩

theorem isTypeName_declaration {w : List Terminal} {ds : List Decl} (h : Declaration w ds) (rest : List Terminal) :
    (headKind (w ++ rest)).isTypeName = true := by
  cases h
  rfl

private theorem sound_declarationsOnto (found : List Decl) (p : Parser) (hreg : p.Regular)
    (hc : (declarationsOnto found p).2.syntaxErrors = p.syntaxErrors) :
    ∃ w dss, (declarationsOnto found p).1 = found.reverse ++ dss.flatten ∧
      p.upcoming = w ++ (declarationsOnto found p).2.upcoming ∧ Repeated Declaration w dss := by
  fun_induction declarationsOnto found p with
  | case1 found p htype r ih =>
    have hreaches := declaration.reaches_run p
    have hclean : r.2.syntaxErrors = p.syntaxErrors := hreaches.syntaxErrors_eq (reaches_declarationsOnto ..) hc
    obtain ⟨ds, hds, u, hu, hphrase⟩ := sound_declaration _ p hreg rfl hclean
    obtain ⟨w, dss, hresult, hw, hdss⟩ := ih (hreaches.regular hreg) (hc.trans hclean.symm)
    refine ⟨u ++ w, ds :: dss, ?_, ?_, .cons hphrase hdss⟩
    · rw [hresult, show r.1 = some ds from hds]
      simp
    · rw [hu, show (declaration.run p).2.upcoming = _ from hw, List.append_assoc]
  | case2 found p htype => exact ⟨[], [], by simp, rfl, .nil⟩

private theorem complete_declarationsOnto {items : List (List Terminal × List Decl)}
    (hitems : ∀ item ∈ items, Declaration item.1 item.2) {rest : List Terminal}
    (hrest : (headKind rest).isTypeName = false) (found : List Decl) {p : Parser} (hreg : p.Regular)
    (hp : p.upcoming = items.flatMap (·.1) ++ rest) :
    (declarationsOnto found p).2.syntaxErrors = p.syntaxErrors ∧
      (declarationsOnto found p).1 = found.reverse ++ (items.map (·.2)).flatten ∧
      (declarationsOnto found p).2.upcoming = rest := by
  induction items generalizing found p with
  | nil =>
    have hstop : ¬ p.current.kind.isTypeName = true := by
      rw [kind_current, hp]
      simpa using hrest
    rw [declarationsOnto, dif_neg hstop]
    exact ⟨rfl, by simp, hp⟩
  | cons item items ih =>
    rw [List.forall_mem_cons] at hitems
    rw [List.flatMap_cons, List.append_assoc] at hp
    have hstart : p.current.kind.isTypeName = true := by
      rw [kind_current, hp]
      exact isTypeName_declaration hitems.1 _
    obtain ⟨hc, ds, hds, rfl, hafter⟩ := complete_declaration _ _ _ hitems.1 trivial p hreg hp
    rw [declarationsOnto, dif_pos hstart]
    obtain ⟨hc', hresult, hend⟩ := ih hitems.2 (((declaration.run p).1.getD []).reverse ++ found)
      ((declaration.reaches_run p).regular hreg) hafter
    refine ⟨hc'.trans hc, ?_, hend⟩
    rw [hresult, hds]
    simp

theorem sound_declarations :
    declarations.Sound fun w ds => ∃ dss, ds = dss.flatten ∧ Repeated Declaration w dss := by
  rintro before p hreg rfl hc
  obtain ⟨w, dss, hresult, hw, hdss⟩ := sound_declarationsOnto [] p hreg hc
  exact ⟨_, congrArg some hresult, w, hw, dss, rfl, hdss⟩

theorem complete_declarations :
    declarations.Complete (fun w ds => ∃ dss, ds = dss.flatten ∧ Repeated Declaration w dss)
      fun rest => (headKind rest).isTypeName = false := by
  rintro _ _ rest ⟨_, rfl, items, rfl, rfl, hitems⟩ hrest p hreg hp
  obtain ⟨hc, hresult, hafter⟩ := complete_declarationsOnto hitems hrest [] hreg hp
  exact ⟨hc, _, congrArg some hresult, rfl, hafter⟩

/-! ### Programs -/

theorem clean_program (before : List Terminal) :
    program.Clean before fun p after => Grammar.Program before p ∧ after = [] := by
  refine (clean_require (by decide)).bind ?_
  rintro - _ ⟨s₁, rfl⟩
  refine (clean_require (by decide)).bind ?_
  rintro - _ ⟨s₂, rfl⟩
  refine (clean_require (by decide)).bind ?_
  rintro - _ ⟨s₃, rfl⟩
  refine (clean_require (by decide)).bind ?_
  rintro - _ ⟨s₄, rfl⟩
  refine (clean_require (by decide)).bind ?_
  rintro - _ ⟨s₅, rfl⟩
  refine (sound_declarations _).bind ?_
  rintro _ _ ⟨u, rfl, dss, rfl, hu⟩
  refine (clean_statementsOver (sound_statementIn maxNesting) _).bind ?_
  rintro body _ ⟨⟨v, rfl, hv⟩, -⟩
  refine (clean_require (by decide)).bind ?_
  rintro - _ ⟨s₆, rfl⟩
  refine clean_require_endOfFile.bind ?_
  rintro - _ ⟨rfl, rfl⟩
  refine (succeeds_noteProgram _ _).clean.bind ?_
  rintro - _ rfl
  refine (succeeds_pure ⟨?_, rfl⟩).clean
  simpa using Grammar.Program.intro s₁ s₂ s₃ s₄ s₅ s₆ hu hv

/-- Neither a statement nor the closing brace begins with the name of a type. -/
private theorem isTypeName_body {v : List Terminal} {body : List Stmt} {room : Nat}
    (h : Repeated (Statement room) v body) (s : String) :
    (headKind (v ++ [(.rightBrace, s)])).isTypeName = false := by
  obtain ⟨items, rfl, -, hitems⟩ := h
  cases items with
  | nil => rfl
  | cons item items =>
    have hk := headKind_statement (hitems item (by simp)) (items.flatMap (·.1) ++ [(.rightBrace, s)])
    have hnone : ∀ k ∈ statementKinds, k.isTypeName = false := by decide
    rw [List.flatMap_cons, List.append_assoc]
    exact hnone _ hk

theorem succeeds_program {w : List Terminal} {p : Program} (h : Grammar.Program w p) :
    program.Succeeds w fun p' _ => p' = p := by
  obtain ⟨s₁, s₂, s₃, s₄, s₅, s₆, hu, hv⟩ := h
  simp only [List.cons_append, List.nil_append, List.append_assoc]
  refine succeeds_require.bind ?_
  rintro - _ rfl
  refine succeeds_require.bind ?_
  rintro - _ rfl
  refine succeeds_require.bind ?_
  rintro - _ rfl
  refine succeeds_require.bind ?_
  rintro - _ rfl
  refine succeeds_require.bind ?_
  rintro - _ rfl
  refine (complete_declarations _ _ _ ⟨_, rfl, hu⟩ (isTypeName_body hv s₆)).bind ?_
  rintro _ _ ⟨rfl, rfl⟩
  refine (succeeds_statementsOver (complete_statementIn maxNesting) hv (.inl rfl)).bind ?_
  rintro _ _ ⟨rfl, rfl⟩
  refine succeeds_require.bind ?_
  rintro - _ rfl
  refine succeeds_require_endOfFile.bind ?_
  rintro - _ rfl
  refine (succeeds_noteProgram _ _).bind ?_
  rintro - _ rfl
  exact succeeds_pure rfl

end Parse

/-! ### Lexical errors -/

namespace Parser

/-- The lexical errors reported and those still to come. -/
def lexicalErrors (p : Parser) : Nat := p.lexer.errorCount + p.lexer.pieces.countP Piece.isFaulty

theorem lexicalErrors_advance (p : Parser) : p.advance.lexicalErrors = p.lexicalErrors := p.lexer.errorCount_next

/-- Parsing neither adds lexical errors nor skips any. -/
theorem Reaches.lexicalErrors_eq {p q : Parser} (h : p.Reaches q) : q.lexicalErrors = p.lexicalErrors := by
  induction h with
  | refl => rfl
  | @advance q _ ih => exact q.lexicalErrors_advance.trans ih
  | report _ _ ih => exact ih
  | @reject q _ _ _ ih => exact q.lexicalErrors_advance.trans ih
  | noteProgram _ _ _ ih => exact ih

theorem lexicalErrors_ofSource (source : String) :
    (ofSource source).lexicalErrors = (Lexer.ofSource source).tokenize.2.errorCount := by
  rw [(Lexer.regular_ofSource source).tokenize_eq, Lexer.errorCount_facing, Lexer.errorCount_behindAll]
  exact (Lexer.ofSource source).errorCount_next

theorem errorCount_le_lexicalErrors (p : Parser) : p.lexer.errorCount ≤ p.lexicalErrors := Nat.le_add_right ..

theorem Regular.lexicalErrors_of_upcoming {p : Parser} (h : p.Regular) (hp : p.upcoming = []) :
    p.lexicalErrors = p.lexer.errorCount := by
  rw [lexicalErrors, h.pieces_of_endOfFile (upcoming_eq_nil.1 hp), List.countP_nil, Nat.add_zero]

end Parser

/-! ### Accepted programs -/

namespace Pipeline

theorem accepted_eq_ok_iff {α : Type} {stage : Stage} {errors : Nat} {a b : α} :
    accepted stage errors a = .ok b ↔ errors = 0 ∧ a = b := by
  unfold accepted
  split <;> simp_all

/-- A text is accepted if it has no lexical errors and the grammar derives its tokens up to the end of the file;
what is returned is the tree that they are derived with. -/
theorem parse_result_eq_ok_iff (source : String) (p : Program) :
    (parse source).result = .ok p ↔
      ∃ tokens, (tokenize source).result = .ok tokens ∧
        Grammar.Program (tokens.dropLast.map Token.terminal) p := by
  have hreg := Parser.regular_ofSource source
  have hupcoming : (Parser.ofSource source).upcoming = (Lexer.ofSource source).upcoming :=
    Parser.upcoming_ofLexer _
  have hlexical := (Parse.program.reaches_run (.ofSource source)).lexicalErrors_eq
  have hend := (Parse.program.reaches_run (.ofSource source)).regular hreg
  rw [Parser.lexicalErrors_ofSource] at hlexical
  simp only [parse, tokenize, Parser.readProgram, Parser.errorCount, accepted_eq_ok_iff]
  constructor
  · rintro ⟨hc, rfl⟩
    have hclean : (Parse.program.run (.ofSource source)).2.syntaxErrors = 0 := by omega
    -- a clean run ends at the end of the file, where all lexical errors are reported
    obtain ⟨p, hp, hphrase, hnil⟩ := Parse.clean_program _ _ hreg hupcoming hclean
    rw [hend.lexicalErrors_of_upcoming hnil] at hlexical
    refine ⟨_, ⟨by omega, rfl⟩, ?_⟩
    rw [hp]
    exact hphrase
  · rintro ⟨_, ⟨hc, rfl⟩, hphrase⟩
    obtain ⟨hclean, p', hp, rfl⟩ := Parse.succeeds_program hphrase _ hreg hupcoming
    have hle := (Parse.program.run (.ofSource source)).2.errorCount_le_lexicalErrors
    have hnone : (Parser.ofSource source).syntaxErrors = 0 := rfl
    rw [hp]
    exact ⟨by omega, rfl⟩

end Pipeline

end Clite
