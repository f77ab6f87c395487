import UtmTiles.Grid.Basic
import UtmTiles.Plane.Measure

/-!
# Estimates

How many tiles a shape takes is estimated from the area of its polygons in square degrees. A square
degree at a latitude has an area of `(111 km) ^ 2` times the cosine of the latitude.

Counts have 64 bits, and their sums are checked: there is no estimate if a sum has more bits.
-/

namespace UtmTiles

variable {α : Type} [Elementary α]

namespace Coverage

/-- Square meters of a square degree at the equator. -/
def squareDegree : α := 12321000000.0

/-- From this number of tiles on, a coverage is announced to be large. -/
def largeCount : Nat := 50000

/-- The estimate for some polygons; they count for nothing if they have no points. -/
def estimateOf (step : α) (polygons : MultiPolygon α) : Nat :=
  match MultiPolygon.centroidY? polygons with
  | some lat =>
    let size := squareDegree * Elementary.cos (Elementary.toRadians lat)
    Scalar.floorCount (MultiPolygon.area polygons * size / (step * step))
  | none => 0

def addCounts? (m n : Nat) : Option Nat := if m + n < UInt64.size then some (m + n) else none

/-- Adds counts up, from the first one on. -/
def sumCounts? (counts : List Nat) : Option Nat := counts.foldlM addCounts? 0

/-- The estimate for several multipolygons; `none` if it has too many bits. -/
def estimate? (step : α) (shape : List (MultiPolygon α)) : Option Nat :=
  sumCounts? (shape.map (estimateOf step))

end Coverage

/-- An approximation of the number of tiles that cover a shape. -/
def Grid.estimate? (g : Grid α) (shape : List (MultiPolygon α)) : Option Nat :=
  Coverage.estimate? g.step shape

end UtmTiles
