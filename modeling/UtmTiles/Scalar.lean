/-!
# Scalars

Zones, projections, grids, tiles and plane geometry are defined once over a class of scalars. The
program runs them on doubles (`Scalar.Binary64`). A theorem that speaks of exact arithmetic takes
any other instance, such as the real numbers.

* `Scalar` is what straight-line code needs: field operations, comparisons, conversions between
  scalars and whole numbers, and the side of a line a point lies on.
* `Elementary` adds the functions a map projection needs.

Comparisons are propositions with decision procedures. Code asks in such a way that a scalar which
compares with nothing (a NaN) takes the branch it should take.
-/

namespace UtmTiles

/-- Numbers that coordinates, resolutions and distances are made of. -/
class Scalar (α : Type) extends
    Add α, Sub α, Mul α, Div α, Neg α, LT α, LE α, OfScientific α where
  decidableLT : DecidableLT α
  decidableLE : DecidableLE α
  /-- The scalar nearest to a whole number. -/
  ofInt : Int → α
  /-- Neither an infinity nor a NaN. -/
  isFinite : α → Bool
  /-- `wrap x m` is what is left of `x` after taking away whole multiples of a positive `m`; it is
  not negative. -/
  wrap : α → α → α
  /-- The largest index not above the scalar. -/
  floorIndex : α → Int
  /-- The smallest index not below the scalar. -/
  ceilIndex : α → Int
  /-- The largest count not above the scalar; no count is negative. -/
  floorCount : α → Nat
  /-- The nearest whole scalar; a half is rounded away from zero. -/
  round : α → α
  /-- The whole part of the scalar as a number of pixels; none is negative. -/
  pixels : α → Nat
  /-- Which way the path from `(px, py)` over `(qx, qy)` to `(rx, ry)` turns: `gt` to the left,
  `lt` to the right, `eq` when the points lie on one line. There is no rounding in the answer. -/
  turn (px py qx qy rx ry : α) : Ordering

attribute [reducible, instance] Scalar.decidableLT Scalar.decidableLE

namespace Scalar

variable {α : Type} [Scalar α]

def abs (x : α) : α := if x < 0.0 then -x else x

/-- The smaller of two scalars; one that compares with nothing gives way to the other. -/
def min (x y : α) : α := if x ≤ y then x else if y ≤ y then y else x

/-- The larger of two scalars; one that compares with nothing gives way to the other. -/
def max (x y : α) : α := if y ≤ x then x else if y ≤ y then y else x

/-- Equality as numbers: zeros of both signs are one number, and a NaN equals nothing. -/
def same (x y : α) : Bool := decide (x ≤ y ∧ y ≤ x)

/-- The scalar lies between two others, given in either order. -/
def isBetween (x a b : α) : Bool :=
  if a < b then decide (a ≤ x ∧ x ≤ b) else decide (b ≤ x ∧ x ≤ a)

end Scalar

/-- Scalars with the functions of a map projection. Angles are radians. -/
class Elementary (α : Type) extends Scalar α where
  pi : α
  sqrt : α → α
  sin : α → α
  cos : α → α
  sinh : α → α
  cosh : α → α
  asin : α → α
  atan : α → α
  atanh : α → α

namespace Elementary

variable {α : Type} [Elementary α]

def toRadians (degrees : α) : α := degrees * (pi / 180.0)

def toDegrees (radians : α) : α := radians * (180.0 / pi)

end Elementary

end UtmTiles
