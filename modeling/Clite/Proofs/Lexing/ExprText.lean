import Clite.Proofs.Lexing.Terminals
import Clite.Tree.Expr

/-!
# The text of an expression

Scanning the text of an expression gives the tokens that it is written with (`Expr.Plain.scans`): its parts are kept
apart by blanks and parentheses, and a prefix operator does not run into its operand.  That needs names and literals
which are tokens of their own (`Expr.Plain`); a negative number is none.
-/

namespace Clite

/-- Written as one token, and not as a number with a point. -/
def Value.Plain : Value → Prop
  | int v => 0 ≤ v.toInt
  | char c => c ≠ '\''
  | float _ => False
  | bool _ => True

/-- All names are names, and all literals are plain. -/
def Expr.Plain : Expr → Prop
  | var x => IsName x
  | literal v => v.Plain
  | binary _ left right => left.Plain ∧ right.Plain
  | unary _ operand => operand.Plain

/-- The token of a literal. -/
def Value.terminal : Value → Terminal
  | int v => (.intLiteral, (int v).text)
  | char c => (.charLiteral, String.singleton c)
  | float x => (.floatLiteral, (float x).text)
  | bool b => (.truth b, (bool b).text)

/-- The token of a symbol. -/
def TokenKind.terminal (k : TokenKind) : Terminal := (k, k.symbolLexeme)

/-- The tokens that an expression is written with. -/
def Expr.terminals : Expr → List Terminal
  | var x => [(.identifier, x)]
  | literal v => [v.terminal]
  | binary op left right =>
    TokenKind.leftParen.terminal ::
      (left.terminals ++ (TokenKind.operator op).terminal :: right.terminals ++ [TokenKind.rightParen.terminal])
  | unary .not operand => TokenKind.bang.terminal :: operand.terminals
  | unary .negate operand => (TokenKind.operator .sub).terminal :: operand.terminals
  | unary (.convert target) operand =>
    (.typeName target, target.text) :: TokenKind.leftParen.terminal ::
      (operand.terminals ++ [TokenKind.rightParen.terminal])

/-! ### Single tokens -/

theorem scans_symbol {k : TokenKind} (h : k.isSymbol) {rest : List Char}
    (hrest : ∀ c ∈ rest.head?, Piece.extension? k ≠ some c) : Scans k.text.toList [k.terminal] rest := by
  have hfits : (Piece.symbol k).Fits rest := ⟨h, hrest⟩
  exact ⟨[.symbol k], hfits.split_append, rfl, by simp [Piece.isFaulty]⟩

/-- The digits of a number without a sign. -/
theorem exists_digits {v : Int32} (h : 0 ≤ v.toInt) :
    ∃ n : Nat, v.toInt = n ∧ (Value.int v).text = String.ofList (Nat.toDigits 10 n) := by
  obtain ⟨n, hn⟩ := Int.eq_ofNat_of_zero_le h
  refine ⟨n, hn, ?_⟩
  rw [← Nat.repr_eq_ofList_toDigits, Value.text, hn]
  rfl

theorem Value.Plain.wellFormed {v : Value} (h : v.Plain) : v.terminal.WellFormed := by
  cases v with
  | int v =>
    obtain ⟨n, -, htext⟩ := exists_digits h
    rw [terminal, htext]
    exact .int Nat.toDigits_ne_nil fun c hc => Nat.isDigit_of_mem_toDigits (by decide) (by decide) hc
  | char c => exact .char h
  | float x => exact h.elim
  | bool b =>
    cases b with
    | false => exact Terminal.WellFormed.keyword (k := .truth false) (by decide)
    | true => exact Terminal.WellFormed.keyword (k := .truth true) (by decide)

theorem Value.text_terminal (v : Value) : v.terminal.text = v.text.toList := by
  cases v with
  | char c => simp [terminal, Terminal.text, Token.span, text, TokenKind.isPunctuation]
  | int v => rfl
  | float x => rfl
  | bool b => rfl

/-! ### What an expression begins with -/

theorem IsWord.head {x : String} (h : IsWord x) : ∃ c s, x.toList = c :: s ∧ c ≠ '=' := by
  obtain ⟨c, s, hx, hc, -⟩ := h
  refine ⟨c, s, hx, ?_⟩
  rintro rfl
  exact absurd hc (by decide)

theorem Value.Plain.head {v : Value} (h : v.Plain) : ∃ c s, v.text.toList = c :: s ∧ c ≠ '=' := by
  cases v with
  | int v =>
    obtain ⟨n, -, htext⟩ := exists_digits h
    obtain ⟨c, s, hdigits⟩ := List.exists_cons_of_ne_nil (Nat.toDigits_ne_nil (n := n) (b := 10))
    have hmem : c ∈ Nat.toDigits 10 n := by
      rw [hdigits]
      exact List.mem_cons_self
    have hdigit : c.isDigit = true := Nat.isDigit_of_mem_toDigits (by decide) (by decide) hmem
    refine ⟨c, s, by rw [htext, hdigits, String.toList_ofList], ?_⟩
    rintro rfl
    exact absurd hdigit (by decide)
  | char c => exact ⟨'\'', [c, '\''], by simp [text], by decide⟩
  | float x => exact h.elim
  | bool b => cases b <;> exact ⟨_, _, rfl, by decide⟩

/-- It begins with a letter, a digit, a quote, a parenthesis or a prefix operator. -/
theorem Expr.Plain.head {e : Expr} (h : e.Plain) : ∃ c s, e.text.toList = c :: s ∧ c ≠ '=' := by
  cases e with
  | var x => exact h.1.head
  | literal v => exact Value.Plain.head h
  | binary op left right => exact ⟨'(', _, by simp [text]; rfl, by decide⟩
  | unary op operand =>
    cases op with
    | not => exact ⟨'!', operand.text.toList, by simp [text, UnaryOp.text], by decide⟩
    | negate => exact ⟨'-', operand.text.toList, by simp [text, UnaryOp.text], by decide⟩
    | convert target =>
      have hmem : TokenKind.typeName target ∈ TokenKind.reserved := by cases target <;> decide
      obtain ⟨c, s, htarget, hc⟩ := (isWord_of_mem_reserved hmem).head
      have htext : (unary (.convert target) operand).text = target.text ++ ("(" ++ operand.text ++ ")") := by
        simp only [text, String.append_assoc]
      refine ⟨c, s ++ ("(" ++ operand.text ++ ")").toList, ?_, hc⟩
      rw [htext, String.toList_append, show target.text.toList = c :: s from htarget]
      rfl

/-! ### Putting texts together -/

namespace Scans

variable {s s' rest : List Char} {w w' : List Terminal}

theorem blank (h : Scans s w rest) : Scans (' ' :: s) w rest := (scans_blank (c := ' ') rfl _).append h

theorem symbol {k : TokenKind} (hk : k.isSymbol) (h : Scans s w rest)
    (hext : ∀ c ∈ (s ++ rest).head?, Piece.extension? k ≠ some c) :
    Scans (k.text.toList ++ s) (k.terminal :: w) rest := (scans_symbol hk hext).append h

theorem parenthesized (h : Scans s w (')' :: rest)) :
    Scans ('(' :: (s ++ [')'])) (TokenKind.leftParen.terminal :: (w ++ [TokenKind.rightParen.terminal])) rest := by
  have hclose : Scans [')'] [TokenKind.rightParen.terminal] rest :=
    scans_symbol (k := .rightParen) rfl (by simp [Piece.extension?])
  exact (Scans.append h hclose).symbol (k := .leftParen) rfl (by simp [Piece.extension?])

/-- Blanks keep an operator apart from its operands. -/
theorem joined (op : BinaryOp) (h : Scans s w (' ' :: (op.text.toList ++ ' ' :: s') ++ rest)) (h' : Scans s' w' rest) :
    Scans (s ++ ' ' :: (op.text.toList ++ ' ' :: s')) (w ++ (TokenKind.operator op).terminal :: w') rest := by
  have hop : Scans (op.text.toList ++ ' ' :: s') ((TokenKind.operator op).terminal :: w') rest := by
    refine h'.blank.symbol (k := .operator op) rfl ?_
    rintro _ ⟨⟩
    cases op <;> simp [Piece.extension?]
  exact h.append hop.blank

end Scans

/-! ### Expressions -/

/-- Behind an expression no character may stand that goes on with its last name or number. -/
theorem Expr.Plain.scans {e : Expr} (h : e.Plain) {rest : List Char}
    (hrest : ∀ c ∈ rest.head?, c.isAlphanum = false ∧ c ≠ '.') : Scans e.text.toList e.terminals rest := by
  -- a blank or a closing parenthesis ends whatever stands before it
  have hends (c : Char) (hc : c = ' ' ∨ c = ')') (s : List Char) :
      ∀ d ∈ (c :: s).head?, d.isAlphanum = false ∧ d ≠ '.' := by
    rintro _ ⟨⟩
    rcases hc with rfl | rfl <;> exact ⟨rfl, by decide⟩
  induction e generalizing rest with
  | var x => exact (Terminal.WellFormed.identifier h).scans hrest
  | literal v =>
    have hplain : v.Plain := h
    have hsymbol : v.terminal.1.isSymbol = false := by cases v <;> rfl
    have hcut : Scans v.terminal.text [v.terminal] rest :=
      hplain.wellFormed.scans fun c hc => by simpa [hsymbol] using hrest c hc
    rwa [v.text_terminal] at hcut
  | binary op left right ihl ihr =>
    have hleft : Scans left.text.toList left.terminals
        (' ' :: (op.text.toList ++ ' ' :: right.text.toList) ++ ')' :: rest) := ihl h.1 (hends ' ' (.inl rfl) _)
    have hright : Scans right.text.toList right.terminals (')' :: rest) := ihr h.2 (hends ')' (.inr rfl) rest)
    have htext : (binary op left right).text.toList =
        '(' :: (left.text.toList ++ ' ' :: (op.text.toList ++ ' ' :: right.text.toList) ++ [')']) := by
      simp [text]
    rw [htext]
    exact (hleft.joined op hright).parenthesized
  | unary op operand ih =>
    cases op with
    | not =>
      obtain ⟨c, s, hhead, hc⟩ := Expr.Plain.head (e := operand) h
      have htext : (unary .not operand).text.toList = TokenKind.bang.text.toList ++ operand.text.toList := by
        simp [text, UnaryOp.text, TokenKind.text]
      rw [htext]
      refine (ih h hrest).symbol rfl ?_
      rw [hhead]
      rintro _ ⟨⟩
      simpa [Piece.extension?] using hc.symm
    | negate =>
      have htext : (unary .negate operand).text.toList =
          (TokenKind.operator .sub).text.toList ++ operand.text.toList := by
        simp [text, UnaryOp.text, TokenKind.text, BinaryOp.text]
      rw [htext]
      exact (ih h hrest).symbol rfl (by simp [Piece.extension?])
    | convert target =>
      have hmem : TokenKind.typeName target ∈ TokenKind.reserved := by cases target <;> decide
      have hoperand : Scans operand.text.toList operand.terminals (')' :: rest) := ih h (hends ')' (.inr rfl) rest)
      have hname : Scans target.text.toList [(.typeName target, target.text)]
          ('(' :: (operand.text.toList ++ [')']) ++ rest) := by
        refine (Terminal.WellFormed.keyword hmem).scans ?_
        rintro _ ⟨⟩
        exact ⟨rfl, by decide⟩
      have htext : (unary (.convert target) operand).text.toList =
          target.text.toList ++ '(' :: (operand.text.toList ++ [')']) := by
        simp [text]
      rw [htext]
      exact hname.append hoperand.parenthesized

end Clite
