import Clite.Proofs.Lexing.Sessions
import Clite.Proofs.Parsing.Numerals
import Clite.Proofs.Parsing.Steps
import Clite.Proofs.Parsing.Tally
import Clite.Proofs.Parsing.TokenList
import Clite.Proofs.Parsing.Trees

/-!
# Which errors there are

Some errors are provided for and never reported: a procedure looks for its first token, but is begun only where that
token stands, and the value of a literal is asked for, but what is scanned as a literal denotes one, unless it is a
numeral that is too large.  Parsing goes on in steps that have their reasons (`Parser.Proceeds`), so each syntax error
blames a token of the text for what it is (`Parser.JustifiedBy`).  No message that is ever written begins like that of
one of the others (`Parser.defensive_errors_unreachable`).
-/

namespace Clite

/-! ### Literals without a value -/

namespace Decimal

/-- Digits in front of a point denote a number, with or without digits behind it. -/
theorem isSome_unsigned? {whole fraction : List Char} (hne : whole ≠ []) (hdigits : ∀ c ∈ whole ++ fraction, c.isDigit) :
    (unsigned? (whole ++ '.' :: fraction)).isSome := by
  have hwhole : ∀ c ∈ whole, c.isDigit := fun c hc => hdigits c (List.mem_append_left _ hc)
  have hfraction : ∀ c ∈ fraction, c.isDigit := fun c hc => hdigits c (List.mem_append_right _ hc)
  have hpoint : ('.' :: fraction).takeWhile Char.isDigit = [] ∧
      ('.' :: fraction).dropWhile Char.isDigit = '.' :: fraction := ⟨rfl, rfl⟩
  have hrest : fraction.takeWhile Char.isDigit = fraction ∧ fraction.dropWhile Char.isDigit = [] :=
    ⟨List.takeWhile_eq_self_iff.2 hfraction, List.dropWhile_eq_nil_iff.2 hfraction⟩
  unfold unsigned?
  rw [List.takeWhile_append_of_pos hwhole, List.dropWhile_append_of_pos hwhole, hpoint.1, hpoint.2, List.append_nil]
  simp only [hrest]
  rw [if_neg (by simp [hne])]
  rfl

end Decimal

/-- The lexemes of literals. -/
theorem Terminal.WellFormed.literal_cases {k : TokenKind} {s : String} (h : WellFormed (k, s)) (hk : k.isLiteral) :
    (k = .intLiteral ∧ s.toList ≠ [] ∧ ∀ c ∈ s.toList, c.isDigit) ∨
    (k = .floatLiteral ∧ ∃ whole fraction, s.toList = whole ++ '.' :: fraction ∧ whole ≠ [] ∧
      ∀ c ∈ whole ++ fraction, c.isDigit) ∨
    (k = .charLiteral ∧ ∃ c, s.toList = [c]) := by
  cases h with
  | int hne hdigits => exact .inl ⟨rfl, by simpa using hne, by simpa using hdigits⟩
  | float hne hdigits => exact .inr (.inl ⟨rfl, _, _, String.toList_ofList, hne, hdigits⟩)
  | @char c _ => exact .inr (.inr ⟨rfl, c, String.toList_singleton c⟩)
  | keyword hreserved =>
    have hnot : ∀ k ∈ TokenKind.reserved, k.isLiteral = false := by decide
    rw [hnot k hreserved] at hk
    cases hk
  | operator hoperator => cases k <;> simp_all [TokenKind.isOperator, TokenKind.isLiteral]
  | punctuation hpunctuation => cases k <;> simp_all [TokenKind.isPunctuation, TokenKind.isLiteral]
  | identifier _ => cases hk

/-- Of the literals that are scanned only numerals denote no value, and only those that are too large. -/
theorem Terminal.WellFormed.numeral_of_ofToken? {t : Token} (h : t.terminal.WellFormed) (hliteral : t.kind.isLiteral)
    (hnone : Value.ofToken? t = none) :
    t.kind = .intLiteral ∧ ∃ n, Decimal.Numeral t.lexeme.toList n ∧ 2147483647 < n := by
  obtain ⟨place, kind, lexeme⟩ := t
  rcases h.literal_cases hliteral with ⟨rfl, hne, hdigits⟩ | ⟨rfl, whole, fraction, htext, hne, hdigits⟩ | ⟨rfl, c, htext⟩
  · obtain ⟨n, hn⟩ := Decimal.exists_numeral hne hdigits
    have hnumeral : Decimal.Numeral lexeme.toList n := (hn n).2 rfl
    refine ⟨rfl, n, hnumeral, Nat.lt_of_not_le fun hle => ?_⟩
    rw [Value.ofToken?_numeral hnumeral, hnumeral.foldlM_appendDigit?, if_pos hle] at hnone
    cases hnone
  · have hsome := Decimal.isSome_unsigned? hne hdigits
    have hmap : (Decimal.unsigned? lexeme.toList).map Value.float = none := hnone
    rw [htext] at hmap
    rw [Option.map_eq_none_iff.1 hmap] at hsome
    cases hsome
  · have hmap : lexeme.toList.head?.map Value.char = none := hnone
    rw [htext] at hmap
    cases hmap

/-! ### Blame -/

namespace Lexer

variable {l : Lexer}

theorem next_mem_tokenize (l : Lexer) : l.next.1 ∈ l.tokenize.1 := by
  rw [tokenize_next]
  split <;> exact List.mem_cons_self

/-- What comes behind a token was to come in front of it; the end of the file comes again. -/
theorem Regular.tokenize_next_subset (h : l.Regular) : l.next.2.tokenize.1 ⊆ l.tokenize.1 := by
  rw [l.tokenize_next]
  split
  · next hend =>
    have hatEnd : (l.perform .next).2.AtEnd l.next.1 := h.atEnd_perform rfl hend
    have hnext : l.next.2.next = (l.next.1, l.next.2) := hatEnd.next
    rw [tokenize_next, hnext, if_pos hend]
    exact List.Subset.refl _
  · exact List.subset_cons_self _ _

/-- What is to come is told by where the lexer stands and what it has not scanned. -/
theorem Regular.tokenize_congr {l' : Lexer} (h : l.Regular) (hpieces : l'.pieces = l.pieces)
    (hposition : l'.position = l.position) : l'.tokenize.1 = l.tokenize.1 := by
  have h' : l'.Regular := h.of_suffix (hpieces ▸ List.suffix_refl _)
  rw [h.tokenize_eq, h'.tokenize_eq, position_behindAll, position_behindAll, hpieces, hposition]

end Lexer

namespace Parser

variable {p q : Parser} {closes : Prop} {ts : List Token}

theorem proceeds_readAll (p : Parser) (constructs : List Construct) : p.Proceeds True (p.readAll constructs).2 := by
  induction constructs generalizing p with
  | nil => exact .refl p
  | cons c cs ih =>
    have hread : p.Proceeds True (c.readIn maxNesting p).2 := c.proceeds_readIn (fun _ => trivial) maxNesting p
    rw [c.readIn_maxNesting] at hread
    exact hread.trans (ih _)

/-- The tokens that the parser looks at, now and later, are among `ts`. -/
structure ReadsFrom (p : Parser) (ts : List Token) : Prop where
  regular : p.lexer.Regular
  current : p.current ∈ ts
  coming : p.lexer.tokenize.1 ⊆ ts

theorem readsFrom_ofLexer {l : Lexer} (hreg : l.Regular) (hts : l.tokenize.1 ⊆ ts) : (ofLexer l).ReadsFrom ts where
  regular := hreg.of_suffix l.pieces_next_suffix
  current := hts l.next_mem_tokenize
  coming := List.Subset.trans hreg.tokenize_next_subset hts

theorem ReadsFrom.advance (h : p.ReadsFrom ts) : p.advance.ReadsFrom ts := by
  have hbehind := readsFrom_ofLexer h.regular h.coming
  exact ⟨hbehind.regular, hbehind.current, hbehind.coming⟩

theorem ReadsFrom.report (h : p.ReadsFrom ts) (e : SyntaxError) : (p.report e).ReadsFrom ts := by
  have hcoming : (p.report e).lexer.tokenize.1 = p.lexer.tokenize.1 := h.regular.tokenize_congr rfl rfl
  exact ⟨h.regular, h.current, hcoming ▸ h.coming⟩

theorem ReadsFrom.noteProgram (h : p.ReadsFrom ts) (ds ss : Nat) : (p.noteProgram ds ss).ReadsFrom ts := by
  have hcoming : (p.noteProgram ds ss).lexer.tokenize.1 = p.lexer.tokenize.1 := h.regular.tokenize_congr rfl rfl
  exact ⟨h.regular, h.current, hcoming ▸ h.coming⟩

theorem Reaches.readsFrom (h : p.Reaches q) (hp : p.ReadsFrom ts) : q.ReadsFrom ts := by
  induction h with
  | refl => exact hp
  | advance _ ih => exact ih.advance
  | report _ _ ih => exact ih.report _
  | reject _ _ ih => exact ih.advance.report _
  | noteProgram ds ss _ ih => exact ih.noteProgram ds ss

/-- Each syntax error that was noted so far blames a token among `ts`. -/
def JustifiedBy (p : Parser) (ts : List Token) : Prop :=
  ∀ e, Event.syntaxError e ∈ p.lexer.trace.toList → ∃ t ∈ ts, e.Blames t

theorem justifiedBy_ofLexer {l : Lexer} (hnone : l.syntaxDiagnostics = []) : (ofLexer l).JustifiedBy ts := by
  have hnone' : l.next.2.syntaxDiagnostics = [] := l.syntaxDiagnostics_next.trans hnone
  intro e he
  cases List.filterMap_eq_nil_iff.1 hnone' _ he

/-- On the way to a token no syntax error is noted. -/
theorem JustifiedBy.advance (h : p.JustifiedBy ts) : p.advance.JustifiedBy ts := by
  obtain ⟨passed, -, hnext⟩ := p.lexer.next_passes
  have htrace : p.advance.lexer.trace = (p.lexer.behindAll passed).trace := by
    show p.lexer.next.2.trace = _
    rw [hnext]
    rfl
  have hnone := Piece.filterMap_eventsFrom_eq_nil (f := Event.syntactic?) (fun _ _ => rfl) (fun _ => rfl)
  intro e he
  rw [htrace, Lexer.trace_behindAll, List.mem_append] at he
  rcases he with he | he
  · exact h e he
  · cases List.filterMap_eq_nil_iff.1 (hnone _ _) _ he

theorem JustifiedBy.report (h : p.JustifiedBy ts) {e : SyntaxError} {t : Token} (ht : t ∈ ts) (he : e.Blames t) :
    (p.report e).JustifiedBy ts := by
  intro e' he'
  simp only [Parser.report, Log.toList_push, List.mem_append, List.mem_singleton, Event.syntaxError.injEq] at he'
  rcases he' with he' | rfl
  · exact h e' he'
  · exact ⟨t, ht, he⟩

theorem JustifiedBy.noteProgram (h : p.JustifiedBy ts) (ds ss : Nat) : (p.noteProgram ds ss).JustifiedBy ts := by
  intro e he
  simp only [Parser.noteProgram, Lexer.emit, Log.toList_push, List.mem_append, List.mem_singleton, reduceCtorEq,
    or_false] at he
  exact h e he

/-- On its way a parser blames only the tokens that it looks at. -/
theorem Proceeds.justifiedBy (h : p.Proceeds closes q) (hreads : p.ReadsFrom ts) (hp : p.JustifiedBy ts) :
    q.JustifiedBy ts := by
  induction h with
  | refl => exact hp
  | trans hpq _ ih ih' => exact ih' (hpq.reaches.readsFrom hreads) (ih hreads hp)
  | advance _ => exact hp.advance
  | block _ _ _ ih => exact (ih hreads.advance hp.advance).advance
  | report he => exact hp.report hreads.current he
  | reject _ he => exact hp.advance.report hreads.current he
  | noteProgram _ ds ss => exact hp.noteProgram ds ss

theorem justifiedBy_readAll (source : String) (skipped : Nat) (constructs : List Construct) :
    ((ofLexer ((Lexer.ofSource source).nextMany skipped).2).readAll constructs).2.JustifiedBy
      (Lexer.ofSource source).tokenize.1 := by
  have hstart : ((Lexer.ofSource source).nextMany skipped).2.Regular ∧
      ((Lexer.ofSource source).nextMany skipped).2.tokenize.1 ⊆ (Lexer.ofSource source).tokenize.1 := by
    refine Lexer.nextMany_of_next (motive := fun l => l.Regular ∧ l.tokenize.1 ⊆ (Lexer.ofSource source).tokenize.1)
      ?_ ⟨Lexer.regular_ofSource source, List.Subset.refl _⟩ skipped
    rintro l ⟨hreg, hsubset⟩
    exact ⟨hreg.of_suffix l.pieces_next_suffix, List.Subset.trans hreg.tokenize_next_subset hsubset⟩
  have hnone := (Lexer.consistent_nextMany source skipped).2
  exact (proceeds_readAll _ constructs).justifiedBy (readsFrom_ofLexer hstart.1 hstart.2) (justifiedBy_ofLexer hnone)

theorem wellFormed_of_mem_tokenize {source : String} {t : Token} (h : t ∈ (Lexer.ofSource source).tokenize.1)
    (hk : t.kind ≠ .endOfFile) : t.terminal.WellFormed := by
  rw [Lexer.tokens_tokenize, List.mem_append, List.mem_singleton] at h
  rcases h with h | rfl
  · have hterminal := List.mem_map_of_mem (f := Token.terminal) h
    rw [Piece.map_terminal_tokensFrom, ← upcoming_ofSource] at hterminal
    exact wellFormed_of_mem_upcoming hterminal
  · exact absurd rfl hk

end Parser

/-! ### Messages -/

private theorem prefix_toList_append (s s' : String) : s.toList <+: (s ++ s').toList := by
  rw [String.toList_append]
  exact List.prefix_append _ _

/-- Neither text begins with the other. -/
def apart (o s : String) : Bool := !o.toList.isPrefixOf s.toList && !s.toList.isPrefixOf o.toList

theorem not_prefix_of_apart {o s m : String} (h : apart o s = true) (hm : o.toList <+: m.toList) :
    ¬ s.toList <+: m.toList := by
  simp only [apart, Bool.and_eq_true, Bool.not_eq_true', ← Bool.not_eq_true, List.isPrefixOf_iff_prefix] at h
  intro hs
  exact (List.prefix_or_prefix_of_prefix hm hs).elim h.1 h.2

namespace LexicalError

/-- What lexical messages begin with. -/
def openings : List String :=
  ["Illegal character", "Expected '", "Empty character literal", "Unterminated character literal"]

theorem exists_opening (e : LexicalError) : ∃ o ∈ openings, o.toList <+: e.message.toList := by
  cases e with
  | rejected what =>
    cases what with
    | illegal c =>
      refine ⟨"Illegal character", by decide, ?_⟩
      by_cases hnul : c = '\x00'
      · subst hnul
        decide
      · have hmessage : (rejected (.illegal c)).message = "Illegal character" ++ (": " ++ Text.quotedChar c) := by
          rw [LexicalError.message, ← String.append_assoc]
          · rfl
          · simpa using hnul
        rw [hmessage]
        exact prefix_toList_append _ _
    | lone c =>
      refine ⟨"Expected '", by decide, ?_⟩
      have hmessage : (rejected (.lone c)).message =
          "Expected '" ++ String.ofList [c, c] ++ "', found lone '" ++ String.singleton c ++ "'" := rfl
      rw [hmessage, String.append_assoc, String.append_assoc, String.append_assoc]
      exact prefix_toList_append _ _
    | emptyLiteral => exact ⟨"Empty character literal", by decide, List.prefix_refl _⟩
    | openLiteral => exact ⟨"Unterminated character literal", by decide, List.prefix_refl _⟩
  | unclosedLiteral => exact ⟨"Expected '", by decide, by decide⟩

end LexicalError

namespace SyntaxError

/-- What the messages of the errors begin with that are provided for and never reported. -/
def defensiveOpenings : List String :=
  ["Expected type, found ", "Invalid FLOAT literal ", "Invalid CHAR literal ", "Expected \x7b in block, found ",
    "Expected if in if statement, found ", "Expected while in while statement, found ",
    "Expected IDENT in assignment, found "]

/-- What the messages of the others begin with, except where a literal has no value. -/
def openings : List String :=
  requirements.map (fun r => "Expected " ++ r.1.text ++ " in " ++ r.2 ++ ", found ") ++
    ["Expected statement, found ", "Expected primary expression, found ", "Nesting deeper than "]

theorem Blames.exists_opening {e : SyntaxError} {t : Token} (h : e.Blames t) :
    (∃ o ∈ openings, o.toList <+: e.message.toList) ∨
      t.kind.isLiteral ∧ Value.ofToken? t = none ∧ e = .invalidLiteral t.kind t.lexeme t.position := by
  cases h with
  | unexpected hrequired _ =>
    exact .inl ⟨_, List.mem_append_left _ (List.mem_map_of_mem hrequired), prefix_toList_append _ _⟩
  | expectedStatement _ => exact .inl ⟨"Expected statement, found ", by decide, prefix_toList_append _ _⟩
  | expectedPrimary _ => exact .inl ⟨"Expected primary expression, found ", by decide, prefix_toList_append _ _⟩
  | invalidLiteral hliteral hnone => exact .inr ⟨hliteral, hnone, rfl⟩
  | nestingTooDeep _ =>
    exact .inl ⟨"Nesting deeper than ", by decide, (prefix_toList_append _ _).trans (prefix_toList_append _ _)⟩

/-- Messages that may be written begin unlike those that never are. -/
theorem apart_openings :
    ((openings ++ LexicalError.openings).all fun o => ("Invalid " :: defensiveOpenings).all (apart o)) = true := by
  decide +kernel

theorem apart_invalid_numeral : defensiveOpenings.all (apart "Invalid INT literal `") = true := by decide +kernel

end SyntaxError

namespace Parser

open SyntaxError (defensiveOpenings)

variable {p : Parser} {source : String}

/-- A diagnostic begins like one that there may be, or it shows a numeral that is too large. -/
theorem JustifiedBy.diagnostic_cases (h : p.JustifiedBy (Lexer.ofSource source).tokenize.1) (hp : p.Consistent)
    {d : Diagnostic} (hd : d ∈ p.diagnostics) :
    (∃ o ∈ SyntaxError.openings ++ LexicalError.openings, o.toList <+: d.message.toList) ∨
      ∃ t ∈ (Lexer.ofSource source).tokenize.1, t.kind = .intLiteral ∧
        (∃ n, Decimal.Numeral t.lexeme.toList n ∧ 2147483647 < n) ∧
        d = ⟨"Invalid INT literal `" ++ t.lexeme ++ "`", some t.position⟩ := by
  have hlog : d ∈ p.lexer.trace.toList.filterMap Event.diagnostic? := hp.lexer.log ▸ hd
  obtain ⟨event, hevent, hdiagnostic⟩ := List.mem_filterMap.1 hlog
  cases event with
  | lexicalError e place =>
    obtain rfl := Option.some.inj hdiagnostic
    obtain ⟨o, ho, hopening⟩ := e.exists_opening
    exact .inl ⟨o, List.mem_append_right _ ho, hopening⟩
  | syntaxError e =>
    obtain rfl := Option.some.inj hdiagnostic
    obtain ⟨t, ht, hblames⟩ := h e hevent
    rcases hblames.exists_opening with ⟨o, ho, hopening⟩ | ⟨hliteral, hnone, rfl⟩
    · exact .inl ⟨o, List.mem_append_left _ ho, hopening⟩
    · have hend : t.kind ≠ .endOfFile := by
        intro hk
        rw [hk] at hliteral
        cases hliteral
      have hwellFormed := wellFormed_of_mem_tokenize ht hend
      obtain ⟨hk, hlarge⟩ := hwellFormed.numeral_of_ofToken? hliteral hnone
      refine .inr ⟨t, ht, hk, hlarge, ?_⟩
      rw [hk, SyntaxError.message_invalid_numeral]
      rfl
  | _ => cases hdiagnostic

/-- Whatever is read from a text, in whatever order, each syntax error that is noted blames a token of the text or its
end.  No message begins like those that are provided for other errors, and a message about an invalid literal shows an
integer literal of the text, in full and where it stands, that denotes a number beyond 32 bits with sign. -/
theorem defensive_errors_unreachable (source : String) (skipped : Nat) (constructs : List Construct) :
    let tokens := (Lexer.ofSource source).tokenize.1
    let p := ((ofLexer ((Lexer.ofSource source).nextMany skipped).2).readAll constructs).2
    (∀ e, Event.syntaxError e ∈ p.lexer.trace.toList → ∃ t ∈ tokens, e.Blames t) ∧
    (∀ d ∈ p.diagnostics, ∀ s ∈ defensiveOpenings, ¬ s.toList <+: d.message.toList) ∧
    ∀ d ∈ p.diagnostics, "Invalid ".toList <+: d.message.toList →
      ∃ t ∈ tokens, t.kind = .intLiteral ∧ (∃ n, Decimal.Numeral t.lexeme.toList n ∧ 2147483647 < n) ∧
        d = ⟨"Invalid INT literal `" ++ t.lexeme ++ "`", some t.position⟩ := by
  intro tokens p
  have hjustified : p.JustifiedBy tokens := justifiedBy_readAll source skipped constructs
  obtain ⟨hlexer, hnone⟩ := Lexer.consistent_nextMany source skipped
  have hp : p.Consistent := (reaches_readAll _ constructs).consistent (consistent_ofLexer hlexer hnone)
  have hapart {o s : String} (ho : o ∈ SyntaxError.openings ++ LexicalError.openings)
      (hs : s ∈ "Invalid " :: defensiveOpenings) : apart o s = true :=
    List.all_eq_true.1 (List.all_eq_true.1 SyntaxError.apart_openings o ho) s hs
  refine ⟨hjustified, fun d hd s hs => ?_, fun d hd hinvalid => ?_⟩
  · rcases hjustified.diagnostic_cases hp hd with ⟨o, ho, hopening⟩ | ⟨t, -, -, -, rfl⟩
    · exact not_prefix_of_apart (hapart ho (List.mem_cons_of_mem _ hs)) hopening
    · have hnumeral := List.all_eq_true.1 SyntaxError.apart_invalid_numeral s hs
      exact not_prefix_of_apart hnumeral ((prefix_toList_append _ _).trans (prefix_toList_append _ _))
  · rcases hjustified.diagnostic_cases hp hd with ⟨o, ho, hopening⟩ | hnumeral
    · exact absurd hinvalid (not_prefix_of_apart (hapart ho List.mem_cons_self) hopening)
    · exact hnumeral

end Parser

end Clite
