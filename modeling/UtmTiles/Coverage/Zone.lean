import UtmTiles.Coverage.Walk
import UtmTiles.Plane.Meeting
import UtmTiles.Utm.Footprint

/-!
# A shape within a zone

`ZoneArea` is the part of a shape that lies in the band of a zone, as positions and in the plane of
the zone. It answers the tests of a walk:

* a range is in reach if its footprint meets the band;
* a range lies within the shape if the shape contains its footprint;
* a range is near if, grown by a margin, it meets the shape in the plane. The margin makes up for
  edges that are straight among positions and curved in the plane;
* a cell touches the shape if a part of its footprint does.

Counts and sums of indices have 64 bits. A range whose cells cannot be counted is not in reach, and
one that cannot be divided in the middle is not near, so that neither gives any cells. That is what
comes of such ranges in builds without overflow checks, where counts and sums wrap around. A build with
checks stops at such a range instead, as it stops at a sum of estimates (`Coverage.addCounts?`).

`ZoneWalk` is a walk with these tests.
-/

namespace UtmTiles

variable {α : Type} [Elementary α]

/-- A shape within a zone. -/
structure ZoneArea (α : Type) where
  zone : Nat
  /-- Width of a cell in meters. -/
  step : α
  /-- The shape's part in the zone, as positions. -/
  polygons : MultiPolygon α
  /-- The same in the plane of the zone. -/
  projected : MultiPolygon α
  /-- Margin in meters. -/
  margin : α

/-- Western bound of a zone's band of longitudes. -/
def Zone.west (zone : Nat) : α := Scalar.ofInt zone * Zone.width - 186.0

/-- Eastern bound of a zone's band of longitudes. -/
def Zone.east (zone : Nat) : α := Zone.west zone + Zone.width

namespace ZoneArea

/-- Margin in meters for each degree of latitude of the shape. -/
def marginPerDegree : α := 2000.0

/-- Distance in meters from the central meridian up to which a zone is gone through. -/
def reach : α := 334000.0

def minEasting : α := Utm.falseEasting - reach

def maxEasting : α := Utm.falseEasting + reach

def project (zone : Nat) (ring : Ring α) : Ring α :=
  ring.map fun p =>
    let (x, y) := Utm.project zone p.x p.y
    ⟨x, y⟩

/-- The part of a shape in a zone; `none` if it has no points. -/
def of? (polygons : MultiPolygon α) (zone : Nat) (step : α) : Option (ZoneArea α) := do
  let box ← MultiPolygon.box? polygons
  return {
    zone, step, polygons
    projected := polygons.map fun p => ⟨project zone p.exterior, p.interiors.map (project zone)⟩
    margin := marginPerDegree * Scalar.abs (box.maxY - box.minY) }

/-- The box that a range of cells covers. -/
def boxOf (step : α) (r : CellRange) : Box α :=
  { minX := Utm.falseEasting + Scalar.ofInt r.west * step
    minY := Scalar.ofInt r.south * step
    maxX := Utm.falseEasting + Scalar.ofInt r.east * step
    maxY := Scalar.ofInt r.north * step }

/-- Where cells that the shape can touch are looked for, as offsets in meters from the origin of the
zone; `box` is the box around the projected shape. -/
def searchBox (a : ZoneArea α) (box : Box α) : Box α :=
  { minX := Scalar.max (box.minX - a.margin) minEasting - Utm.falseEasting
    minY := box.minY - a.margin
    maxX := Scalar.min (box.maxX + a.margin) maxEasting - Utm.falseEasting
    maxY := box.maxY + a.margin }

/-- The cells that a box of offsets meets. -/
def rangeOf (step : α) (box : Box α) : CellRange :=
  { west := Scalar.floorIndex (box.minX / step)
    south := Scalar.floorIndex (box.minY / step)
    east := Scalar.ceilIndex (box.maxX / step)
    north := Scalar.ceilIndex (box.maxY / step) }

/-- The range that holds all cells the shape can touch; `none` if the shape has no points. -/
def range? (a : ZoneArea α) : Option CellRange :=
  (MultiPolygon.box? a.projected).map fun box => rangeOf a.step (a.searchBox box)

/-- The width and the height of a range have 64 bits. -/
def HasCounts (r : CellRange) : Prop :=
  r.width ≤ Binary64.maxIndex ∧ r.height ≤ Binary64.maxIndex

instance (r : CellRange) : Decidable (HasCounts r) := inferInstanceAs (Decidable (_ ∧ _))

/-- The sums of bounds that a range is divided by have 64 bits. -/
def HasSums (r : CellRange) : Prop :=
  (r.height ≤ 1 ∨ 1 < r.width →
    Binary64.minIndex ≤ r.west + r.east ∧ r.west + r.east ≤ Binary64.maxIndex) ∧
  (1 < r.height →
    Binary64.minIndex ≤ r.south + r.north ∧ r.south + r.north ≤ Binary64.maxIndex)

instance (r : CellRange) : Decidable (HasSums r) := inferInstanceAs (Decidable (_ ∧ _))

def tests (a : ZoneArea α) : RangeTests where
  inReach r :=
    decide (HasCounts r) &&
      match MultiPolygon.box? (Utm.footprint a.zone (boxOf a.step r)) with
      | some box => !decide (Zone.east a.zone < box.minX ∨ box.maxX < Zone.west a.zone)
      | none => false
  isWithin r := MultiPolygon.contains a.polygons (Utm.footprint a.zone (boxOf a.step r))
  isNear r :=
    decide (HasSums r) &&
      MultiPolygon.meets a.projected ((boxOf a.step r).buffered a.margin).polygon
  touches c :=
    (Utm.footprint a.zone (boxOf a.step c.range)).any fun part =>
      MultiPolygon.meets a.polygons part

end ZoneArea

/-! ### The walk through a zone -/

/-- A cell of a zone. -/
structure Site where
  zone : Nat
  cell : Cell
  deriving DecidableEq, Repr, Hashable

/-- A walk through the range of a shape within a zone. -/
structure ZoneWalk (α : Type) where
  area : ZoneArea α
  walk : Walk

namespace ZoneWalk

/-- The walk through the part of a shape in a zone; `none` if there is nothing to walk through. -/
def of? (polygons : MultiPolygon α) (zone : Nat) (step : α) : Option (ZoneWalk α) := do
  let area ← ZoneArea.of? polygons zone step
  let range ← area.range?
  return { area, walk := Walk.start range }

/-- The next site and the walk after it. -/
def next (w : ZoneWalk α) : Option Site × ZoneWalk α :=
  let (cell, walk) := w.walk.next w.area.tests
  (cell.map (Site.mk w.area.zone), { w with walk })

/-- The sites that the walk has still to give. -/
def left (w : ZoneWalk α) : List Site := (w.walk.left w.area.tests).map (Site.mk w.area.zone)

theorem next_fst (w : ZoneWalk α) : w.next.1 = w.left.head? := by
  have hcell := (w.walk.next_law w.area.tests).1
  simp only [next, left, hcell, List.head?_map]

theorem left_next (w : ZoneWalk α) : w.next.2.left = w.left.tail := by
  have hcells := (w.walk.next_law w.area.tests).2
  simp only [next, left, hcells, List.map_tail]

/-- Walks through zones hand out sites. -/
def producer : Producer (ZoneWalk α) Site where
  next := next
  left := left
  next_fst := next_fst
  left_next := left_next

end ZoneWalk
end UtmTiles
