import Clite.Text.Hidden

/-!
# Quoted characters and texts

How a message shows a character or a text so that it can be told apart from every other one: the quote, the
backslash and the usual controls behind a backslash, characters that do not show by their code point, and all
others as they are.
-/

namespace Clite.Text

/-- The code point in lower-case hexadecimal digits, as in `\u{7f}`. -/
def byCodePoint (c : Char) : String :=
  "\\u\x7b" ++ String.ofList (Nat.toDigits 16 c.toNat) ++ "\x7d"

/-- A character as it stands between two marks `quote`. -/
def escaped (quote c : Char) : String :=
  match c with
  | '\x00' => "\\0"
  | '\t' => "\\t"
  | '\r' => "\\r"
  | '\n' => "\\n"
  | '\\' => "\\\\"
  | c =>
    if c = quote then String.ofList ['\\', c]
    else if isHidden c then byCodePoint c
    else String.singleton c

/-- A character between single quotes. -/
def quotedChar (c : Char) : String := "'" ++ escaped '\'' c ++ "'"

/-- A text between double quotes. -/
def quotedText (s : String) : String := "\"" ++ String.join (s.toList.map (escaped '"')) ++ "\""

end Clite.Text
