import Nodal.Decimal.Binary64

/-! # Shortest digits

The decimal with the fewest digits among those that read back as a given floating point value, and
of those the nearest. A decimal reads back when it lies between the midpoints to the two neighbours
of the value; a midpoint itself reads back when the significand is even. -/

namespace Nodal.Decimal

/-- The decimals that read back as `value / unit`, as an interval in the same unit. -/
structure Cell where
  low : Nat
  value : Nat
  high : Nat
  unit : Nat
  closed : Bool

namespace Cell

/-- Quarter steps of the significand give whole numbers for both midpoints. The gap below a power of
two is half as wide as the gap above it, save at the foot of the scale. -/
def ofFinite (significand : Nat) (exponent : Int) : Cell :=
  let up := Nat.pow 2 (exponent - 2).toNat
  let below := if significand = leadingBit ∧ -1074 < exponent then 1 else 2
  { low := (4 * significand - below) * up
    value := 4 * significand * up
    high := (4 * significand + 2) * up
    unit := Nat.pow 2 (2 - exponent).toNat
    closed := significand % 2 = 0 }

/-- The cell counted in steps of `10 ^ k`. -/
def scale (c : Cell) (k : Int) : Cell :=
  let fine := Nat.pow 10 (-k).toNat
  { low := c.low * fine
    value := c.value * fine
    high := c.high * fine
    unit := c.unit * Nat.pow 10 k.toNat
    closed := c.closed }

/-- Whether the point `d` of the grid reads back. -/
def holds (c : Cell) (d : Nat) : Bool :=
  if c.closed then c.low ≤ d * c.unit ∧ d * c.unit ≤ c.high
  else c.low < d * c.unit ∧ d * c.unit < c.high

/-- The grid point that reads back and is nearest to the value: one of the two beside it. Half way
between them, the upper one. -/
def nearest? (c : Cell) : Option Nat :=
  let d := c.value / c.unit
  match c.holds d, c.holds (d + 1) with
  | true, true => some (if 2 * (c.value % c.unit) < c.unit then d else d + 1)
  | true, false => some d
  | false, true => some (d + 1)
  | false, false => none

end Cell

/-- Tries the grids of `10 ^ k`, `10 ^ (k - 1)`, and so on, each ten times as fine as the one
before. -/
def firstGrid (c : Cell) : Nat → Int → Decimal
  | 0, k => ⟨c.value / c.unit, k⟩
  | tries + 1, k =>
    match (c.scale k).nearest? with
    | some d => ⟨d, k⟩
    | none => firstGrid c tries (k - 1)

/-- The shortest decimal of `significand * 2 ^ exponent`. Seventeen digits always suffice. -/
def shortest (significand : Nat) (exponent : Int) : Decimal :=
  if significand = 0 then ⟨0, 0⟩
  else
    let c := Cell.ofFinite significand exponent
    firstGrid c 19 (leadingExponent c.value c.unit + 1)

end Nodal.Decimal
