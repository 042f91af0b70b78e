import Clite.Decimal.Shortest

/-!
# The text of a floating-point number

A number is written with its shortest digits: positionally, with at least one digit behind the point, when it is
zero or its magnitude lies from `0.0001` up to but not including `10 ^ 16`; otherwise as one digit, the further
digits behind a point, and the power of ten behind an `e`.
-/

namespace Clite.Decimal

/-- The digits of a decimal, leading digit first. -/
def Scaled.numerals (d : Scaled) : List Char := Nat.toDigits 10 d.digits

/-- The power of ten of the leading digit. -/
def Scaled.leading (d : Scaled) : Int := d.place + d.numerals.length - 1

private def zeros (n : Nat) : List Char := List.replicate n '0'

/-- With a point among the digits, and zeros where the digits do not reach it. -/
def Scaled.positional (d : Scaled) : List Char :=
  let ds := d.numerals
  if 0 ≤ d.place then ds ++ zeros d.place.toNat ++ ['.', '0']
  else if 0 ≤ d.leading then
    ds.take (d.leading.toNat + 1) ++ '.' :: ds.drop (d.leading.toNat + 1)
  else '0' :: '.' :: zeros (-d.leading - 1).toNat ++ ds

/-- With one digit before the point, and the power of ten. -/
def Scaled.scientific (d : Scaled) : List Char :=
  let fraction := match d.numerals.drop 1 with
    | [] => []
    | ds => '.' :: ds
  let sign := if d.leading < 0 then ['-'] else []
  d.numerals.take 1 ++ fraction ++ 'e' :: sign ++ Nat.toDigits 10 d.leading.natAbs

def Scaled.text (d : Scaled) : String :=
  String.ofList (if -4 ≤ d.leading && d.leading < 16 then d.positional else d.scientific)

/-- The text of a magnitude; zero has no leading digit. -/
private def magnitudeText (x : Binary) : String :=
  if x.mantissa = 0 then "0.0" else x.shortest.text

/-- The text of a floating-point number. -/
def ofFloat (x : Float) : String :=
  if x.isNaN then "NaN"
  else
    let sign := if 0x8000000000000000 ≤ x.toBits then "-" else ""
    sign ++ if x.isInf then "inf" else magnitudeText (.ofBits x.toBits)

end Clite.Decimal
