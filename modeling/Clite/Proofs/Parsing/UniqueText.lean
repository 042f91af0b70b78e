import Clite.Proofs.Parsing.RoundTrip

/-!
# Texts tell expressions apart

The first token of an expression tells of which kind it is, and so where its parts begin; where it ends is told by the
expression itself, whatever follows it (`Expr.Plain.terminals_append_inj`).  A text is scanned in one way only, so two
plain expressions with the same text are the same (`Expr.texts_tell_expressions_apart`).  This is not a matter of
parsing: expressions that nest too deep to be read, or in which one prefix operator stands behind another, are told
apart as well.
-/

namespace Clite

/-- A text is scanned in one way only. -/
theorem Scans.terminals_unique {s rest : List Char} {w w' : List Terminal} (h : Scans s w rest)
    (h' : Scans s w' rest) : w = w' := by
  obtain ⟨pieces, hsplit, rfl, -⟩ := h
  obtain ⟨pieces', hsplit', rfl, -⟩ := h'
  have hpieces : pieces = pieces' := List.append_cancel_right (hsplit.symm.trans hsplit')
  rw [hpieces]

/-- The token of a literal tells its value. -/
theorem Value.Plain.terminal_inj {v v' : Value} (h : v.Plain) (h' : v'.Plain) (heq : v.terminal = v'.terminal) :
    v = v' := by
  have hread : ofToken? ⟨.unplaced, v.terminal.1, v.terminal.2⟩ = some v := ofToken?_eq_some.2 h.literal
  have hread' : ofToken? ⟨.unplaced, v'.terminal.1, v'.terminal.2⟩ = some v' := ofToken?_eq_some.2 h'.literal
  rw [heq, hread'] at hread
  exact (Option.some.inj hread).symm

namespace Expr

/-- The kind of the token that an expression begins with. -/
def headKind : Expr → TokenKind
  | var _ => .identifier
  | literal v => v.terminal.1
  | binary _ _ _ => .leftParen
  | unary .not _ => .bang
  | unary .negate _ => .operator .sub
  | unary (.convert target) _ => .typeName target

theorem headKind_terminals (e : Expr) (u : List Terminal) : Parser.headKind (e.terminals ++ u) = e.headKind := by
  cases e with
  | unary op operand => cases op <;> rfl
  | _ => rfl

/-- An expression is told by its tokens and where it ends, whatever follows. -/
theorem Plain.terminals_append_inj {e f : Expr} (he : e.Plain) (hf : f.Plain) {u v : List Terminal}
    (h : e.terminals ++ u = f.terminals ++ v) : e = f ∧ u = v := by
  -- behind a part comes the rest of the expression, so `u` and `v` are not fixed
  induction e generalizing f u v with
  | var x =>
    have hhead : f.headKind = .identifier := by rw [← f.headKind_terminals v, ← h]; rfl
    cases f with
    | var y =>
      obtain ⟨hname, rfl⟩ := List.cons.inj h
      obtain rfl : x = y := congrArg Prod.snd hname
      exact ⟨rfl, rfl⟩
    | literal w => cases w <;> cases hhead
    | binary => cases hhead
    | unary op => cases op <;> cases hhead
  | literal w =>
    have hhead : f.headKind = w.terminal.1 := by rw [← f.headKind_terminals v, ← h]; rfl
    cases f with
    | literal w' =>
      obtain ⟨hvalue, rfl⟩ := List.cons.inj h
      obtain rfl : w = w' := Value.Plain.terminal_inj he hf hvalue
      exact ⟨rfl, rfl⟩
    | var | binary => cases w <;> cases hhead
    | unary op => cases op <;> cases w <;> cases hhead
  | binary op left right ihl ihr =>
    have hhead : f.headKind = .leftParen := by rw [← f.headKind_terminals v, ← h]; rfl
    cases f with
    | binary op' left' right' =>
      simp only [terminals, List.cons_append, List.append_assoc, List.cons.injEq, true_and] at h
      obtain ⟨rfl, hop⟩ := ihl he.1 hf.1 h
      obtain ⟨hop, hright⟩ := List.cons.inj hop
      obtain rfl : op = op' := TokenKind.operator.inj (congrArg Prod.fst hop)
      obtain ⟨rfl, hclose⟩ := ihr he.2 hf.2 hright
      exact ⟨rfl, (List.cons.inj hclose).2⟩
    | var => cases hhead
    | literal w => cases w <;> cases hhead
    | unary op => cases op <;> cases hhead
  | unary op operand ih =>
    have hhead : f.headKind = (unary op operand).headKind := by
      rw [← f.headKind_terminals v, ← h, headKind_terminals]
    cases f with
    | unary op' operand' =>
      have hoperand : operand'.Plain := hf
      obtain rfl : op = op' := by cases op <;> cases op' <;> cases hhead <;> rfl
      cases op with
      | not | negate =>
        obtain ⟨rfl, hrest⟩ := ih he hoperand (List.cons.inj h).2
        exact ⟨rfl, hrest⟩
      | convert target =>
        simp only [terminals, List.cons_append, List.append_assoc, List.cons.injEq, true_and] at h
        obtain ⟨rfl, hclose⟩ := ih he hoperand h
        exact ⟨rfl, (List.cons.inj hclose).2⟩
    | var | binary => cases op <;> cases hhead
    | literal w => cases op <;> cases w <;> cases hhead

/-- Two plain expressions with the same text are the same, however deep they nest and however their prefix operators
stand. -/
theorem texts_tell_expressions_apart {e f : Expr} (he : e.Plain) (hf : f.Plain) (h : e.text = f.text) : e = f := by
  have hscans : Scans e.text.toList e.terminals [] := he.scans (by simp)
  have hscans' : Scans f.text.toList f.terminals [] := hf.scans (by simp)
  rw [← h] at hscans'
  have hterminals : e.terminals ++ [] = f.terminals ++ [] := by rw [hscans.terminals_unique hscans']
  exact (he.terminals_append_inj hf hterminals).1

/-- A sign, a prefix and an operator between quotes are told apart, and whatever number of 32 bits is written `10` is the
same number. -/
theorem texts_tell_expressions_apart_signs :
    let chained (v : Int32) : Expr :=
      .unary .negate (.unary .not (.unary .negate (.binary .sub (.literal (.char '-')) (.literal (.int v)))))
    (chained 10).text = "-!-('-' - 10)" ∧ (chained 10).Plain ∧ (chained (1 - 3 + 12)).Plain ∧
      (chained 10).text = (chained (1 - 3 + 12)).text ∧ chained 10 = chained (1 - 3 + 12) := by
  intro chained
  have hchar : '-' ≠ '\'' := by decide
  have hint : (0 : Int) ≤ (10 : Int32).toInt := by decide
  have hint' : (0 : Int) ≤ (1 - 3 + 12 : Int32).toInt := by decide
  have hplain : (chained 10).Plain := ⟨hchar, hint⟩
  have hplain' : (chained (1 - 3 + 12)).Plain := ⟨hchar, hint'⟩
  have htext : (chained 10).text = (chained (1 - 3 + 12)).text := by decide +kernel
  exact ⟨by decide +kernel, hplain, hplain', htext, texts_tell_expressions_apart hplain hplain' htext⟩

end Expr

end Clite
