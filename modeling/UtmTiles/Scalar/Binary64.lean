import UtmTiles.Scalar

/-!
# Doubles as scalars

A finite double is a whole number of binary units, `± mantissa * 2 ^ exponent` (`Binary64.Parts`).
Rounding to whole numbers, remainders and the side-of-a-line test work on these parts with
unbounded integers, so their answers carry no rounding error of their own.

Indices are 64-bit: a double beyond their range becomes the nearest index, and a NaN becomes 0.
-/

namespace UtmTiles
namespace Binary64

/-- A finite double, taken apart: `± mantissa * 2 ^ exponent`. -/
structure Parts where
  negative : Bool
  mantissa : Nat
  exponent : Int
  deriving DecidableEq, Repr

/-- The parts of a double; infinities and NaNs have none. -/
def parts? (x : Float) : Option Parts :=
  let bits := x.toBits
  let negative := bits >>> 63 == 1
  let biased := ((bits >>> 52) &&& 0x7FF).toNat
  let fraction := (bits &&& 0xFFFFFFFFFFFFF).toNat
  if biased = 0x7FF then none
  else if biased = 0 then some ⟨negative, fraction, -1074⟩
  else some ⟨negative, fraction + 0x10000000000000, (biased : Int) - 1075⟩

namespace Parts

def signed (p : Parts) : Int := if p.negative then -(p.mantissa : Int) else p.mantissa

/-- The value as a multiple of `2 ^ e`, for an `e` not above the exponent. -/
def scaledTo (p : Parts) (e : Int) : Int := p.signed * Nat.pow 2 (p.exponent - e).toNat

/-- The largest whole number not above the value. -/
def floor (p : Parts) : Int := (p.scaledTo (min p.exponent 0)).fdiv (Nat.pow 2 (-p.exponent).toNat)

/-- The smallest whole number not below the value. -/
def ceil (p : Parts) : Int := -((-p.scaledTo (min p.exponent 0)).fdiv (Nat.pow 2 (-p.exponent).toNat))

/-- The whole part of the value's distance from zero. -/
def whole (p : Parts) : Nat :=
  p.mantissa * Nat.pow 2 p.exponent.toNat / Nat.pow 2 (-p.exponent).toNat

/-- The whole number nearest to the value's distance from zero; a half is rounded up. -/
def nearest (p : Parts) : Nat :=
  (2 * (p.mantissa * Nat.pow 2 p.exponent.toNat) + Nat.pow 2 (-p.exponent).toNat)
    / (2 * Nat.pow 2 (-p.exponent).toNat)

end Parts

/-! ### Whole numbers and doubles -/

/-- The smallest and the largest index. -/
def minIndex : Int := -0x8000000000000000

@[inherit_doc minIndex] def maxIndex : Int := 0x7FFFFFFFFFFFFFFF

/-- The index nearest to a whole number. -/
def clampIndex (n : Int) : Int := if n < minIndex then minIndex else if maxIndex < n then maxIndex else n

theorem minIndex_le_clampIndex (n : Int) : minIndex ≤ clampIndex n := by
  unfold clampIndex minIndex maxIndex
  grind

theorem clampIndex_le_maxIndex (n : Int) : clampIndex n ≤ maxIndex := by
  unfold clampIndex minIndex maxIndex
  grind

/-- The index a double stands for, after `whole` has made its value a whole number. -/
def index (whole : Parts → Int) (x : Float) : Int :=
  match parts? x with
  | some p => clampIndex (whole p)
  | none => if x.isNaN then 0 else if x < 0.0 then minIndex else maxIndex

/-- The count below `2 ^ bits` a double stands for: its whole part, or 0 if it is negative or a
NaN, or the largest count if it is too large. -/
def count (bits : Nat) (x : Float) : Nat :=
  match parts? x with
  | some p => if p.negative then 0 else min p.whole (Nat.pow 2 bits - 1)
  | none => if x.isNaN ∨ x < 0.0 then 0 else Nat.pow 2 bits - 1

/-- The double nearest to `± n * 2 ^ e`. -/
def ofScaled (negative : Bool) (n : Nat) (e : Int) : Float :=
  let x := match e with
    | .ofNat k => Float.ofScientific (n * Nat.pow 2 k) false 0
    | .negSucc k => Float.ofScientific (n * Nat.pow 5 (k + 1)) true (k + 1)
  if negative then -x else x

/-- The nearest whole double; a half is rounded away from zero. -/
def round (x : Float) : Float :=
  match parts? x with
  | some p => if 0 ≤ p.exponent then x else ofScaled p.negative p.nearest 0
  | none => x

/-- The remainder of `x` by a positive `m`: first the exact remainder with the sign of `x`, then,
if that is negative, `m` more. -/
def wrap (x m : Float) : Float :=
  if 0.0 ≤ x ∧ x < m then x
  else match parts? x, parts? m with
    | some p, some q =>
      let e := min p.exponent q.exponent
      let r := (p.scaledTo e).tmod (q.scaledTo e)
      let rest := ofScaled p.negative r.natAbs e
      if rest < 0.0 then rest + m else rest
    | _, _ => 0.0 / 0.0

/-! ### The side of a line -/

/-- Twice the area of a triangle, in units of `4 ^ e` for the smallest exponent `e` among its
coordinates; `none` if a coordinate is not finite. -/
def twiceArea? (px py qx qy rx ry : Float) : Option Int := do
  let px ← parts? px
  let py ← parts? py
  let qx ← parts? qx
  let qy ← parts? qy
  let rx ← parts? rx
  let ry ← parts? ry
  let e := [py, qx, qy, rx, ry].foldl (fun e p => min e p.exponent) px.exponent
  let units (p : Parts) := p.scaledTo e
  return (units px - units rx) * (units qy - units ry) - (units py - units ry) * (units qx - units rx)

/-- Bound on the relative rounding error of the two products of an area computed in doubles. -/
def areaErrorBound : Float := 3.3306690738754716e-16

/-- The turn at three points. The area computed in doubles decides when it is larger than its error
can be; all else is computed exactly. -/
def turn (px py qx qy rx ry : Float) : Ordering :=
  let left := (px - rx) * (qy - ry)
  let right := (py - ry) * (qx - rx)
  let area := left - right
  let bound := areaErrorBound * (left.abs + right.abs) + 1e-290
  -- `1e-290` makes up for products that are rounded to zero
  if bound < area ∧ area.isFinite then .gt
  else if bound < -area ∧ area.isFinite then .lt
  else match twiceArea? px py qx qy rx ry with
    | some area => compare area 0
    | none => .eq

/-! ### Instances -/

instance : Scalar Float where
  decidableLT := inferInstance
  decidableLE := inferInstance
  ofInt := Float.ofInt
  isFinite := Float.isFinite
  wrap := wrap
  floorIndex := index Parts.floor
  ceilIndex := index Parts.ceil
  floorCount := count 64
  round := round
  pixels := count 32
  turn := turn

/-- The logarithm of `1 + x`, also for an `x` so small that `1 + x` rounds to 1. -/
def logOnePlus (x : Float) : Float :=
  let u := 1.0 + x
  if u == 1.0 then x
  else if u.isFinite && u != 0.0 then u.log * (x / (u - 1.0))
  else u.log

instance : Elementary Float where
  pi := 3.141592653589793
  sqrt := Float.sqrt
  sin := Float.sin
  cos := Float.cos
  sinh := Float.sinh
  cosh := Float.cosh
  asin := Float.asin
  atan := Float.atan
  atanh x := 0.5 * logOnePlus ((2.0 * x) / (1.0 - x))

end Binary64
end UtmTiles
