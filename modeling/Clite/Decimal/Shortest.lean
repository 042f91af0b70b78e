/-!
# Shortest decimals

The shortest decimal of a binary fraction `m * 2 ^ q` is the one with the fewest digits among those that round
back to it; of several the nearest, and of two equally near the larger.

The decimals with a given last place form a grid.  Grids are tried from coarse to fine, and on each grid only the
two neighbours of the value: if any point of the grid rounds back, one of these does.  All comparisons are made
on natural numbers in one common unit, so nothing is lost.
-/

namespace Clite.Decimal

/-- `digits * 10 ^ place` -/
structure Scaled where
  digits : Nat
  place : Int
  deriving DecidableEq, Repr

/-- The magnitude `mantissa * 2 ^ exponent` of a finite binary64 number. -/
structure Binary where
  mantissa : Nat
  exponent : Int
  /-- the gap to the next smaller magnitude is half the gap to the next larger one -/
  narrowBelow : Bool
  deriving DecidableEq, Repr

namespace Binary

/-- Reads the fraction field of 52 bits and the exponent field of 11 before it; above the smallest exponent the
mantissa has a leading bit that is not written.  Meant for bits that are neither infinite nor NaN. -/
def ofBits (bits : UInt64) : Binary :=
  let leadingBit := 0x10000000000000
  let fraction := bits.toNat % leadingBit
  match bits.toNat / leadingBit % 2048 with
  | 0 => ⟨fraction, -1074, false⟩
  | e + 1 => ⟨leadingBit + fraction, (e : Int) - 1074, fraction == 0 && 0 < e⟩

/-- Where a value stands on a grid: in units so small that a step of the grid, and a quarter of the gap to the
next larger magnitude, are both whole. -/
structure OnGrid where
  step : Nat
  quarter : Nat

def onGrid (x : Binary) (place : Int) : OnGrid where
  step := Nat.pow 10 place.toNat * Nat.pow 2 (2 - x.exponent).toNat
  quarter := Nat.pow 10 (-place).toNat * Nat.pow 2 (x.exponent - 2).toNat

/-- Does the grid point `digits * 10 ^ place` round to `x`?  The reals that do reach half a gap to both sides,
ends included when the mantissa is even. -/
def roundsBack (x : Binary) (place : Int) (digits : Nat) : Bool :=
  let grid := x.onGrid place
  let low := (4 * x.mantissa - if x.narrowBelow then 1 else 2) * grid.quarter
  let high := (4 * x.mantissa + 2) * grid.quarter
  let point := digits * grid.step
  if x.mantissa % 2 = 0 then low ≤ point && point ≤ high else low < point && point < high

/-- The grid point that stands for `x`, if one of the two neighbours of `x` rounds back to it. -/
def pointAt? (x : Binary) (place : Int) : Option Nat :=
  let grid := x.onGrid place
  let value := 4 * x.mantissa * grid.quarter
  let below := value / grid.step
  let above := below + 1
  match x.roundsBack place below, x.roundsBack place above with
  | true, true => some (if value - below * grid.step < above * grid.step - value then below else above)
  | true, false => some below
  | false, true => some above
  | false, false => none

/-- The first hit on the grids from `place` down, `grids` of them. -/
def search (x : Binary) : (grids : Nat) → (place : Int) → Option Scaled
  | 0, _ => none
  | grids + 1, place =>
    match x.pointAt? place with
    | some digits => some ⟨digits, place⟩
    | none => x.search grids (place - 1)

/-- `x` itself, with all its digits. -/
def exact (x : Binary) : Scaled :=
  ⟨x.mantissa * Nat.pow 2 x.exponent.toNat * Nat.pow 5 (-x.exponent).toNat, min x.exponent 0⟩

/-- A place above the leading digit of `x`: `0.30103` is the decimal logarithm of two. -/
def topPlace (x : Binary) : Int := (x.mantissa.log2 + 1 + x.exponent) * 30103 / 100000 + 2

/-- The shortest decimal of a magnitude above zero.  Seventeen digits always suffice, so the search over the
grids does not come back empty. -/
def shortest (x : Binary) : Scaled := (x.search 24 x.topPlace).getD x.exact

end Binary

end Clite.Decimal
