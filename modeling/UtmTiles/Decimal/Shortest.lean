import UtmTiles.Scalar.Binary64

/-!
# The shortest decimal of a double

A double stands for an interval of real numbers: all that round to it. `shortest` finds the decimal
in that interval with the fewest digits, and of several with as few the one nearest to the double.
Two of them may be equally near; a `Tie` says which of these is taken.

The search walks the decimal grids `…, 100, 10, 1, 0.1, …` from coarse to fine. If a grid has a
point in the interval then one of the double's two neighbours on the grid lies in it, so only those
two are tested.
-/

namespace UtmTiles

/-- A decimal number `digits * 10 ^ exponent`. -/
structure Decimal where
  digits : Nat
  exponent : Int
  deriving DecidableEq, Repr

namespace Decimal

open Binary64

/-- Which of two equally near decimals is taken. -/
inductive Tie where
  | upper
  /-- The one whose last digit is even. -/
  | even
  deriving DecidableEq, Repr

/-- The lower one of two neighbors on a grid is taken, at equal distances. -/
def Tie.takesLower (tie : Tie) (lower : Nat) : Bool :=
  match tie with
  | upper => false
  | even => lower % 2 == 0

/-- The interval of reals that round to a positive double, in units of `2 ^ unit`. Its ends belong
to it if the mantissa is even. -/
structure Interval where
  unit : Int
  low : Nat
  mid : Nat
  high : Nat
  closed : Bool
  deriving DecidableEq, Repr

/-- The gap below a power of two is half the gap above it, except among the smallest doubles. -/
def Interval.ofParts (p : Parts) : Interval where
  unit := p.exponent - 2
  low := if p.mantissa = 0x10000000000000 ∧ -1074 < p.exponent then 4 * p.mantissa - 1 else 4 * p.mantissa - 2
  mid := 4 * p.mantissa
  high := 4 * p.mantissa + 2
  closed := p.mantissa % 2 == 0

/-- On the grid of the multiples of `10 ^ k`: the neighbour of the middle that lies in the interval,
the nearer one if both do. -/
def Interval.onGrid? (i : Interval) (tie : Tie) (k : Int) : Option Nat :=
  -- `10 ^ k` and `2 ^ unit` over a common denominator
  let step := Nat.pow 10 k.toNat * Nat.pow 2 (-i.unit).toNat
  let scale := Nat.pow 2 i.unit.toNat * Nat.pow 10 (-k).toNat
  let below := i.mid * scale / step
  let above := below + 1
  let hitsBelow := i.low * scale < below * step || (i.closed && i.low * scale == below * step)
  let hitsAbove := above * step < i.high * scale || (i.closed && above * step == i.high * scale)
  match hitsBelow, hitsAbove with
  | true, true =>
    let down := i.mid * scale - below * step
    let up := above * step - i.mid * scale
    if down < up ∨ (down = up ∧ tie.takesLower below) then some below else some above
  | true, false => some below
  | false, true => some above
  | false, false => none

/-- The first grid with a point in the interval, among `fuel + 1` grids from `10 ^ k` down. -/
def Interval.search (i : Interval) (tie : Tie) : Nat → Int → Decimal
  | 0, k => ⟨(i.onGrid? tie k).getD 0, k⟩
  | fuel + 1, k =>
    match i.onGrid? tie k with
    | some d => ⟨d, k⟩
    | none => i.search tie fuel (k - 1)

/-- The shortest decimal of a positive finite double. The first grid tried is coarser than the
number is large; a double has 17 digits at most. -/
def shortest (tie : Tie) (p : Parts) : Decimal :=
  -- 30103 / 100000 is the logarithm of 2 to base 10, from above
  let magnitude := p.exponent + p.mantissa.log2 + 1
  (Interval.ofParts p).search tie 22 (magnitude * 30103 / 100000 + 2)

end Decimal
end UtmTiles
