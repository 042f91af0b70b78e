import Clite.Proofs.Lexing.ExprText
import Clite.Proofs.Parsing.Expression
import Clite.Proofs.Parsing.Reports

/-!
# Reading back the text of an expression

The parentheses in the text of an expression make each operand a factor, so the grammar derives its tokens with the
same expression, provided that the parentheses do not nest too deep and that no prefix operator stands before another
one.  Hence an expression is read back from its text (`Parse.run_expression_text`).
-/

namespace Clite

/-! ### Which expressions are read back -/

/-- Begins with a prefix operator. -/
def Expr.isPrefixed : Expr → Bool
  | unary .not _ | unary .negate _ => true
  | _ => false

/-- No operand of a prefix operator begins with another one. -/
def Expr.PrefixesApart : Expr → Prop
  | var _ | literal _ => True
  | binary _ left right => left.PrefixesApart ∧ right.PrefixesApart
  | unary .not operand | unary .negate operand => operand.isPrefixed = false ∧ operand.PrefixesApart
  | unary (.convert _) operand => operand.PrefixesApart

/-- The largest number of binary operators and conversions on a way from the root to a leaf. -/
def Expr.nesting : Expr → Nat
  | var _ | literal _ => 0
  | binary _ left right => max left.nesting right.nesting + 1
  | unary .not operand | unary .negate operand => operand.nesting
  | unary (.convert _) operand => operand.nesting + 1

/-! ### Derivations -/

namespace Grammar

section Levels

variable {Primary : Phrase Expr} {u v w : List Terminal} {e left right : Expr}

theorem Disjunction.factor (h : Factor Primary w e) : Disjunction Primary w e :=
  .operand (.operand (.operand (.operand (.operand (.operand h)))))

/-- Two factors may be joined by any operator: it is joined at its own level. -/
theorem Disjunction.binary (hu : Factor Primary u left) (hv : Factor Primary v right) (op : BinaryOp) (s : String) :
    Disjunction Primary (u ++ (.operator op, s) :: v) (.binary op left right) := by
  have hterm {w e} (h : Factor Primary w e) : Term Primary w e := .operand h
  have haddition {w e} (h : Factor Primary w e) : Addition Primary w e := .operand (hterm h)
  have hrelation {w e} (h : Factor Primary w e) : Relation Primary w e := .operand (haddition h)
  have hequality {w e} (h : Factor Primary w e) : Equality Primary w e := .operand (hrelation h)
  have hconjunction {w e} (h : Factor Primary w e) : Conjunction Primary w e := .operand (hequality h)
  cases op with
  | mul | div => exact .operand (.operand (.operand (.operand (.operand (.joined (hterm hu) (by simp) hv)))))
  | add | sub => exact .operand (.operand (.operand (.operand (.joined (haddition hu) (by simp) (hterm hv)))))
  | less | lessEqual | greater | greaterEqual =>
    exact .operand (.operand (.operand (.joined (haddition hu) (by simp) (haddition hv))))
  | equal | notEqual => exact .operand (.operand (.joined (hrelation hu) (by simp) (hrelation hv)))
  | and => exact .operand (.joined (hconjunction hu) (by simp) (hequality hv))
  | or => exact .joined (.operand (hconjunction hu)) (by simp) (hconjunction hv)

end Levels

end Grammar

open Grammar

theorem Value.Plain.literal {v : Value} (h : v.Plain) : Literal v.terminal v := by
  cases v with
  | int v =>
    obtain ⟨n, hn, htext⟩ := exists_digits h
    have hdigits : Decimal.natural? (Nat.toDigits 10 n) = some n := by
      have hall : (Nat.toDigits 10 n).all Char.isDigit = true :=
        List.all_eq_true.2 fun c hc => Nat.isDigit_of_mem_toDigits (by decide) (by decide) hc
      simp [Decimal.natural?, hall, Nat.toDigits_ne_nil, Nat.ofDigitChars_ten_toDigits]
    have hlt := v.toInt_lt
    rw [terminal, htext]
    refine .int (n := n) ?_ (by omega) hn
    rw [String.toList_ofList]
    exact Decimal.natural?_eq_some.1 hdigits
  | char c => exact .char (by simp)
  | float x => exact h.elim
  | bool b => exact .truth

/-- The tokens of an expression are a factor, and a primary expression unless they begin with a prefix operator. -/
theorem Expr.Plain.derives {e : Expr} (h : e.Plain) (hapart : e.PrefixesApart) {room : Nat}
    (hroom : e.nesting ≤ room) :
    Factor (Primary room) e.terminals e ∧ (e.isPrefixed = false → Primary room e.terminals e) := by
  have hplain {w : List Terminal} {e : Expr} {room : Nat} (h : Primary room w e) :
      Factor (Primary room) w e ∧ (e.isPrefixed = false → Primary room w e) := ⟨.plain h, fun _ => h⟩
  induction e generalizing room with
  | var x => cases room <;> exact hplain .identifier
  | literal v => cases room <;> exact hplain (.literal (Value.Plain.literal h))
  | binary op left right ihl ihr =>
    obtain ⟨inner, rfl⟩ : ∃ inner, room = inner + 1 := Nat.exists_eq_add_of_le' (Nat.le_of_add_left_le hroom)
    have hinner : max left.nesting right.nesting ≤ inner := Nat.le_of_succ_le_succ hroom
    have hleft := (ihl h.1 hapart.1 (Nat.max_le.1 hinner).1).1
    have hright := (ihr h.2 hapart.2 (Nat.max_le.1 hinner).2).1
    exact hplain (.parenthesized _ _ (Disjunction.binary hleft hright op _))
  | unary op operand ih =>
    cases op with
    | not => exact ⟨.not ((ih h hapart.2 hroom).2 hapart.1), nofun⟩
    | negate => exact ⟨.negate ((ih h hapart.2 hroom).2 hapart.1), nofun⟩
    | convert target =>
      obtain ⟨inner, rfl⟩ : ∃ inner, room = inner + 1 := Nat.exists_eq_add_of_le' (Nat.le_of_add_left_le hroom)
      have hoperand := (ih h hapart (Nat.le_of_succ_le_succ hroom)).1
      exact hplain (.conversion _ _ _ (Disjunction.factor hoperand))

namespace Parse

/-- A plain expression is read back from its text, up to the end, and nothing is reported. -/
theorem run_expression_text (e : Expr) (h : e.Plain) (hapart : e.PrefixesApart) (hdepth : e.nesting ≤ 64) :
    let read := expression.run (.ofSource e.text)
    read.1 = some e ∧ read.2.diagnostics = [] ∧ read.2.current.kind = .endOfFile := by
  intro read
  have hphrase : Expression maxNesting e.terminals e := Disjunction.factor (h.derives hapart hdepth).1
  obtain ⟨pieces, hsplit, hterminals, hclean⟩ := @Expr.Plain.scans e h [] (by simp)
  rw [List.append_nil, Piece.split_nil, List.append_nil] at hsplit
  have hupcoming : (Parser.ofSource e.text).upcoming = e.terminals ++ [] := by
    rw [Parser.upcoming_ofSource, hsplit, hterminals, List.append_nil]
  have hstop : NoOperator [] := by simp [NoOperator, Parser.headKind]
  obtain ⟨hcount, e', hresult, rfl, hend⟩ :=
    complete_expressionIn maxNesting _ _ [] hphrase hstop _ (Parser.regular_ofSource e.text) hupcoming
  refine ⟨hresult, ?_, Parser.upcoming_eq_nil.1 hend⟩
  have hreaches : (Parser.ofSource e'.text).Reaches read.2 := expression.reaches_run _
  have hlexical : read.2.lexer.lexicalDiagnostics = [] := by
    have hnone := (@Lexer.tokenize_of_clean e'.text (hsplit ▸ hclean)).2
    exact List.prefix_nil.1 (hnone ▸ hreaches.lexicalDiagnostics_prefix.1)
  exact (hreaches.consistent (Parser.consistent_ofSource _)).diagnostics_eq_nil hlexical hcount

/-- Prefix operators, a conversion and a number inside parentheses. -/
theorem run_expression_text_mixed :
    ∃ e : Expr, e.text = "(!x1 && bool((-7 < 'c')))" ∧ e.Plain ∧ e.PrefixesApart ∧ e.nesting ≤ 64 ∧
      (expression.run (.ofSource e.text)).1 = some e := by
  have hname : IsName "x1" := ⟨isWord_of_all (by decide), by decide⟩
  have hint : (0 : Int) ≤ (7 : Int32).toInt := by decide
  have hchar : 'c' ≠ '\'' := by decide
  have hplain : Expr.Plain (.binary .and (.unary .not (.var "x1")) (.unary (.convert .bool)
      (.binary .less (.unary .negate (.literal (.int 7))) (.literal (.char 'c'))))) :=
    ⟨hname, hint, hchar⟩
  exact ⟨_, by decide +kernel, hplain, ⟨⟨rfl, trivial⟩, ⟨rfl, trivial⟩, trivial⟩, by decide,
    (run_expression_text _ hplain ⟨⟨rfl, trivial⟩, ⟨rfl, trivial⟩, trivial⟩ (by decide)).1⟩

end Parse

end Clite
