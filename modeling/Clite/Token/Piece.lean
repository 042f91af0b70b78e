import Clite.Text.Quoted
import Clite.Token

/-!
# Pieces of a source text

A source text falls into pieces: blanks, comments, tokens, and what the language has no use for.  `split` cuts a
text into its pieces without looking at what came before, so it can be resumed behind any piece.  The texts of
the pieces, put together, are the text that was cut (`text_first`).
-/

namespace Clite

/-- Text that belongs to no token. -/
inductive Rejected where
  /-- a character that starts no token -/
  | illegal (c : Char)
  /-- one of the doubled symbols `&&` and `||`, standing alone -/
  | lone (c : Char)
  /-- two quotes with nothing between them -/
  | emptyLiteral
  /-- a quote at the end of the text -/
  | openLiteral
  deriving DecidableEq, Repr

/-- What is wrong with a piece of text. -/
inductive LexicalError where
  | rejected (what : Rejected)
  /-- a character literal without its closing quote, which is read all the same -/
  | unclosedLiteral
  deriving DecidableEq, Repr

inductive Piece where
  | blank (c : Char)
  /-- a comment, without its two slashes -/
  | comment (body : List Char)
  | word (letters : List Char)
  | integer (digits : List Char)
  /-- a number with a point, and the digits on both sides of it -/
  | decimal (whole fraction : List Char)
  /-- an operator or a punctuation mark -/
  | symbol (kind : TokenKind)
  | charLiteral (c : Char) (closed : Bool)
  | rejected (what : Rejected)
  deriving DecidableEq, Repr

def Rejected.text : Rejected → List Char
  | illegal c | lone c => [c]
  | emptyLiteral => ['\'', '\'']
  | openLiteral => ['\'']

namespace Piece

/-- The text of a piece as it stands in the source. -/
def text : Piece → List Char
  | blank c => [c]
  | comment body => '/' :: '/' :: body
  | word letters => letters
  | integer digits => digits
  | decimal whole fraction => whole ++ '.' :: fraction
  | symbol kind => kind.text.toList
  | charLiteral c true => ['\'', c, '\'']
  | charLiteral c false => ['\'', c]
  | rejected what => what.text

/-! ### Cutting off the first piece -/

def isBlank (c : Char) : Bool := c = ' ' || c = '\t' || c = '\n' || c = '\r'

/-- A run of digits; with a point behind it, the digits behind the point as well. -/
def number (c : Char) (rest : List Char) : Piece × List Char :=
  let digits := c :: rest.takeWhile Char.isDigit
  match rest.dropWhile Char.isDigit with
  | '.' :: after => (decimal digits (after.takeWhile Char.isDigit), after.dropWhile Char.isDigit)
  | after => (integer digits, after)

/-- What follows a single quote. -/
def quoted : List Char → Piece × List Char
  | [] => (rejected .openLiteral, [])
  | '\'' :: rest => (rejected .emptyLiteral, rest)
  | c :: '\'' :: rest => (charLiteral c true, rest)
  | c :: rest => (charLiteral c false, rest)

/-- The longer symbol if `second` comes next, and the shorter one otherwise. -/
def either (second : Char) (longer shorter : TokenKind) : List Char → Piece × List Char
  | [] => (symbol shorter, [])
  | c :: rest => if c = second then (symbol longer, rest) else (symbol shorter, c :: rest)

/-- A symbol that has to be written twice. -/
def doubled (c : Char) (op : BinaryOp) : List Char → Piece × List Char
  | [] => (rejected (.lone c), [])
  | d :: rest => if d = c then (symbol (.operator op), rest) else (rejected (.lone c), d :: rest)

/-- A comment behind two slashes, up to the end of its line; a division behind one. -/
def slash : List Char → Piece × List Char
  | '/' :: rest => (comment (rest.takeWhile (· ≠ '\n')), rest.dropWhile (· ≠ '\n'))
  | rest => (symbol (.operator .div), rest)

/-- A symbol, or a character that starts no token. -/
def mark (c : Char) (rest : List Char) : Piece × List Char :=
  match c with
  | '\x7b' => (symbol .leftBrace, rest)
  | '\x7d' => (symbol .rightBrace, rest)
  | '[' => (symbol .leftBracket, rest)
  | ']' => (symbol .rightBracket, rest)
  | '(' => (symbol .leftParen, rest)
  | ')' => (symbol .rightParen, rest)
  | ';' => (symbol .semicolon, rest)
  | ',' => (symbol .comma, rest)
  | '+' => (symbol (.operator .add), rest)
  | '-' => (symbol (.operator .sub), rest)
  | '*' => (symbol (.operator .mul), rest)
  | '/' => slash rest
  | '=' => either '=' (.operator .equal) .assign rest
  | '<' => either '=' (.operator .lessEqual) (.operator .less) rest
  | '>' => either '=' (.operator .greaterEqual) (.operator .greater) rest
  | '!' => either '=' (.operator .notEqual) .bang rest
  | '&' => doubled '&' .and rest
  | '|' => doubled '|' .or rest
  | c => (rejected (.illegal c), rest)

/-- The first piece of a text that begins with `c`, and the text behind it. -/
def first (c : Char) (rest : List Char) : Piece × List Char :=
  if isBlank c then (blank c, rest)
  else if c.isAlpha then (word (c :: rest.takeWhile Char.isAlphanum), rest.dropWhile Char.isAlphanum)
  else if c.isDigit then number c rest
  else if c = '\'' then quoted rest
  else mark c rest

/-! ### The first piece loses nothing -/

private theorem text_number (c : Char) (rest : List Char) :
    (number c rest).1.text ++ (number c rest).2 = c :: rest := by
  have h : rest.takeWhile Char.isDigit ++ rest.dropWhile Char.isDigit = rest :=
    List.takeWhile_append_dropWhile
  unfold number
  split
  · next after hd => simpa [text, hd] using h
  · simp [text, h]

private theorem text_quoted (rest : List Char) : (quoted rest).1.text ++ (quoted rest).2 = '\'' :: rest := by
  unfold quoted
  split <;> simp [text, Rejected.text]

private theorem text_either {second : Char} {longer shorter : TokenKind} {c : Char}
    (hl : longer.text.toList = [c, second]) (hs : shorter.text.toList = [c]) (rest : List Char) :
    (either second longer shorter rest).1.text ++ (either second longer shorter rest).2 = c :: rest := by
  unfold either
  split
  · simp [text, hs]
  · split <;> simp_all [text]

private theorem text_doubled {c : Char} {op : BinaryOp} (h : op.text.toList = [c, c]) (rest : List Char) :
    (doubled c op rest).1.text ++ (doubled c op rest).2 = c :: rest := by
  unfold doubled
  split
  · simp [text, Rejected.text]
  · split <;> simp_all [text, Rejected.text, TokenKind.text]

private theorem text_slash (rest : List Char) : (slash rest).1.text ++ (slash rest).2 = '/' :: rest := by
  unfold slash
  split
  · simp [text, List.takeWhile_append_dropWhile]
  · simp [text, TokenKind.text, BinaryOp.text]

private theorem text_mark (c : Char) (rest : List Char) :
    (mark c rest).1.text ++ (mark c rest).2 = c :: rest := by
  unfold mark
  split
  case h_12 => exact text_slash rest
  case h_13 => exact text_either rfl rfl rest
  case h_14 => exact text_either rfl rfl rest
  case h_15 => exact text_either rfl rfl rest
  case h_16 => exact text_either rfl rfl rest
  case h_17 => exact text_doubled rfl rest
  case h_18 => exact text_doubled rfl rest
  all_goals rfl

/-- The first piece and what is left make up the text. -/
theorem text_first (c : Char) (rest : List Char) : (first c rest).1.text ++ (first c rest).2 = c :: rest := by
  unfold first
  split
  · rfl
  split
  · simp [text, List.takeWhile_append_dropWhile]
  split
  · exact text_number c rest
  split
  · next h => rw [h]; exact text_quoted rest
  · exact text_mark c rest

/-! ### Cutting up the whole text -/

private theorem suffix_number (c : Char) (rest : List Char) : (number c rest).2 <:+ rest := by
  unfold number
  split
  · next after hd =>
    have h : '.' :: after <:+ rest := hd ▸ List.dropWhile_suffix _
    exact (List.dropWhile_suffix _).trans ((List.suffix_cons '.' after).trans h)
  · exact List.dropWhile_suffix _

private theorem suffix_quoted (rest : List Char) : (quoted rest).2 <:+ rest := by
  unfold quoted
  split
  · exact List.suffix_refl _
  · exact List.suffix_cons ..
  · exact (List.suffix_cons ..).trans (List.suffix_cons ..)
  · exact List.suffix_cons ..

private theorem suffix_either (second : Char) (longer shorter : TokenKind) (rest : List Char) :
    (either second longer shorter rest).2 <:+ rest := by
  unfold either
  split
  · exact List.suffix_refl _
  · split
    · exact List.suffix_cons ..
    · exact List.suffix_refl _

private theorem suffix_doubled (c : Char) (op : BinaryOp) (rest : List Char) :
    (doubled c op rest).2 <:+ rest := by
  unfold doubled
  split
  · exact List.suffix_refl _
  · split
    · exact List.suffix_cons ..
    · exact List.suffix_refl _

private theorem suffix_slash (rest : List Char) : (slash rest).2 <:+ rest := by
  unfold slash
  split
  · exact (List.dropWhile_suffix _).trans (List.suffix_cons ..)
  · exact List.suffix_refl _

private theorem suffix_mark (c : Char) (rest : List Char) : (mark c rest).2 <:+ rest := by
  unfold mark
  split
  case h_12 => exact suffix_slash rest
  case h_13 | h_14 | h_15 | h_16 => exact suffix_either ..
  case h_17 | h_18 => exact suffix_doubled ..
  all_goals exact List.suffix_refl _

/-- What is left behind the first piece is the end of the text. -/
theorem suffix_first (c : Char) (rest : List Char) : (first c rest).2 <:+ rest := by
  unfold first
  split
  · exact List.suffix_refl _
  split
  · exact List.dropWhile_suffix _
  split
  · exact suffix_number c rest
  split
  · exact suffix_quoted rest
  · exact suffix_mark c rest

/-- The pieces of a text behind those already cut off, which are given last piece first. -/
def splitOnto (cut : List Piece) : List Char → List Piece
  | [] => cut.reverse
  | c :: rest => splitOnto ((first c rest).1 :: cut) (first c rest).2
termination_by s => s.length
decreasing_by exact Nat.lt_succ_of_le (suffix_first c rest).length_le

/-- The pieces of a text, in order. -/
def split (s : List Char) : List Piece := splitOnto [] s

private theorem splitOnto_eq (cut : List Piece) (s : List Char) : splitOnto cut s = cut.reverse ++ split s := by
  induction h : s.length using Nat.strongRecOn generalizing cut s with
  | ind n ih =>
    cases s with
    | nil => simp [split, splitOnto]
    | cons c rest =>
      have hl : (first c rest).2.length < n :=
        h ▸ Nat.lt_succ_of_le (suffix_first c rest).length_le
      rw [split, splitOnto, splitOnto, ih _ hl _ _ rfl, ih _ hl [_] _ rfl]
      simp

@[simp] theorem split_nil : split [] = [] := by simp [split, splitOnto]

theorem split_cons (c : Char) (rest : List Char) :
    split (c :: rest) = (first c rest).1 :: split (first c rest).2 := by
  rw [split, splitOnto, splitOnto_eq]
  rfl

/-! ### What a piece stands for -/

/-- The kind of a word.  No reserved word has a single letter, so one letter needs no look-up. -/
def wordKind (letters : List Char) : TokenKind :=
  if 1 < letters.length then .ofWord (String.ofList letters) else .identifier

/-- The kind and the lexeme of the token that a piece stands for. -/
def token? : Piece → Option (TokenKind × String)
  | blank _ | comment _ | rejected _ => none
  | word letters => some (wordKind letters, String.ofList letters)
  | integer digits => some (.intLiteral, String.ofList digits)
  | decimal whole fraction => some (.floatLiteral, String.ofList (whole ++ '.' :: fraction))
  | symbol kind => some (kind, kind.symbolLexeme)
  | charLiteral c _ => some (.charLiteral, String.singleton c)

/-- What is wrong with a piece, and where, when the piece begins at `start`: rejected text is reported at its
beginning, a missing quote at the place where it is missing. -/
def error? (start : Position) (piece : Piece) : Option (LexicalError × Position) :=
  match piece with
  | rejected what => some (.rejected what, start)
  | charLiteral _ false => some (.unclosedLiteral, start.advanceAll piece.text)
  | _ => none

end Piece

namespace LexicalError

def message : LexicalError → String
  | rejected (.illegal '\x00') => "Illegal character NUL"
  | rejected (.illegal c) => "Illegal character: " ++ Text.quotedChar c
  | rejected (.lone c) =>
    "Expected '" ++ String.ofList [c, c] ++ "', found lone '" ++ String.singleton c ++ "'"
  | rejected .emptyLiteral => "Empty character literal"
  | rejected .openLiteral => "Unterminated character literal"
  | unclosedLiteral => "Expected ' to close character literal"

end LexicalError

end Clite
