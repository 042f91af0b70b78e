/-!
# Reading numerals

A numeral is a non-empty run of decimal digits.  A number with a point or an exponent is read to the nearest
floating-point number, ties to even: what is too large is infinite, what is too small is zero.
-/

namespace Clite.Decimal

/-- The value of a non-empty run of digits. -/
def natural? (digits : List Char) : Option Nat :=
  if digits.isEmpty || !digits.all Char.isDigit then none else some (Nat.ofDigitChars 10 digits 0)

/-- `digits * 10 ^ place`, rounded to nearest.  Outside of `10 ^ ±400` the number of digits alone decides. -/
def nearest (digits : List Char) (place : Int) : Float :=
  let digits := digits.dropWhile (· = '0')
  if digits.isEmpty || place + digits.length < -400 then 0
  else if 400 < place + digits.length then 1 / 0
  else Float.ofScientific (Nat.ofDigitChars 10 digits 0) (place < 0) place.natAbs

/-- A power of ten behind `e`, with or without a sign. -/
private def power? : List Char → Option Int
  | [] => some 0
  | e :: s =>
    if e.toLower ≠ 'e' then none
    else match s with
      | '-' :: s => (natural? s).map fun n => -(n : Int)
      | '+' :: s => (natural? s).map Int.ofNat
      | s => (natural? s).map Int.ofNat

/-- Digits, a point with or without digits after it, a power of ten; at least one digit before the power. -/
def unsigned? (s : List Char) : Option Float :=
  let whole := s.takeWhile Char.isDigit
  let (fraction, rest) := match s.dropWhile Char.isDigit with
    | '.' :: t => (t.takeWhile Char.isDigit, t.dropWhile Char.isDigit)
    | t => ([], t)
  if whole.isEmpty && fraction.isEmpty then none
  else (power? rest).map fun p => nearest (whole ++ fraction) (p - fraction.length)

/-- A number with or without a sign, or the name of an infinity or of NaN in any case. -/
def toFloat? (text : String) : Option Float :=
  let magnitude? (s : List Char) : Option Float :=
    if (String.ofList s).toLower ∈ ["inf", "infinity"] then some (1 / 0)
    else if (String.ofList s).toLower = "nan" then some (0 / 0)
    else unsigned? s
  match text.toList with
  | '-' :: s => (magnitude? s).map fun x => -x
  | '+' :: s => magnitude? s
  | s => magnitude? s

end Clite.Decimal
