import UtmTiles.Scalar

/-!
# Points, rings and polygons

A ring is a list of points whose last point repeats the first (`Ring.closed`). A polygon is a ring
with rings cut out of it, and a multipolygon is a list of polygons.
-/

namespace UtmTiles

/-- A point of the plane, or a position with its longitude as `x` and its latitude as `y`. -/
structure Point (α : Type) where
  x : α
  y : α
  deriving DecidableEq, Repr

abbrev Ring (α : Type) := List (Point α)

/-- A segment, from one point to another. -/
abbrev Segment (α : Type) := Point α × Point α

/-- A polygon. -/
structure Polygon (α : Type) where
  exterior : Ring α
  interiors : List (Ring α)
  deriving DecidableEq, Repr

/-- Several polygons that belong together. -/
abbrev MultiPolygon (α : Type) := List (Polygon α)

/-- An axis-parallel box. Nothing is assumed about the order of its bounds. -/
structure Box (α : Type) where
  minX : α
  minY : α
  maxX : α
  maxY : α
  deriving DecidableEq, Repr

variable {α : Type} [Scalar α]

def Point.same (p q : Point α) : Bool := Scalar.same p.x q.x && Scalar.same p.y q.y

/-- Which way the path over three points turns. -/
def Point.turn (p q r : Point α) : Ordering := Scalar.turn p.x p.y q.x q.y r.x r.y

namespace Ring

/-- The ring through some points: the first point comes again at the end, unless it is there. -/
def closed (points : List (Point α)) : Ring α :=
  match points, points.getLast? with
  | first :: _, some last => if first.same last then points else points ++ [first]
  | _, _ => points

/-- The segments of a ring, as pairs of neighbours. -/
def segments (ring : Ring α) : List (Segment α) := ring.zip ring.tail

end Ring

namespace Polygon

/-- The polygon between some rings, each of which gets closed. -/
def ofRings (exterior : List (Point α)) (interiors : List (List (Point α))) : Polygon α :=
  ⟨Ring.closed exterior, interiors.map Ring.closed⟩

def rings (p : Polygon α) : List (Ring α) := p.exterior :: p.interiors

end Polygon

namespace Box

/-- The box around some points: `none` if there are none. -/
def around? : List (Point α) → Option (Box α)
  | [] => none
  | first :: rest =>
    some (rest.foldl (fun b p =>
      let (minX, maxX) := widen p.x b.minX b.maxX
      let (minY, maxY) := widen p.y b.minY b.maxY
      ⟨minX, minY, maxX, maxY⟩) ⟨first.x, first.y, first.x, first.y⟩)
where
  /-- The bounds after one more value. -/
  widen (v low high : α) : α × α :=
    if high < v then (low, v) else if v < low then (v, high) else (low, high)

def ofCorners (p q : Point α) : Box α :=
  let (minX, maxX) := if p.x < q.x then (p.x, q.x) else (q.x, p.x)
  let (minY, maxY) := if p.y < q.y then (p.y, q.y) else (q.y, p.y)
  ⟨minX, minY, maxX, maxY⟩

def width (b : Box α) : α := b.maxX - b.minX

def height (b : Box α) : α := b.maxY - b.minY

/-- The box grown by a distance on every side. -/
def buffered (b : Box α) (distance : α) : Box α :=
  ⟨b.minX - distance, b.minY - distance, b.maxX + distance, b.maxY + distance⟩

def shiftedNorth (b : Box α) (distance : α) : Box α :=
  { b with minY := b.minY + distance, maxY := b.maxY + distance }

/-- The corners, counter-clockwise from the lower right. -/
def corners (b : Box α) : List (Point α) :=
  [⟨b.maxX, b.minY⟩, ⟨b.maxX, b.maxY⟩, ⟨b.minX, b.maxY⟩, ⟨b.minX, b.minY⟩]

/-- The point lies within the bounds or on them. -/
def Contains (b : Box α) (p : Point α) : Prop :=
  b.minX ≤ p.x ∧ p.x ≤ b.maxX ∧ b.minY ≤ p.y ∧ p.y ≤ b.maxY

instance (b : Box α) (p : Point α) : Decidable (b.Contains p) :=
  inferInstanceAs (Decidable (_ ∧ _ ∧ _ ∧ _))

/-- The four bounds: west, south, east, north. -/
def toList (b : Box α) : List α := [b.minX, b.minY, b.maxX, b.maxY]

/-- The box as a polygon; bounds in the wrong order are exchanged. -/
def polygon (b : Box α) : Polygon α :=
  Polygon.ofRings (ofCorners ⟨b.minX, b.minY⟩ ⟨b.maxX, b.maxY⟩).corners []

def apart (a b : Box α) : Bool :=
  decide (a.maxX < b.minX ∨ a.maxY < b.minY ∨ b.maxX < a.minX ∨ b.maxY < a.minY)

/-- Two boxes, of which one may be missing, have no point in common. -/
def apart? : Option (Box α) → Option (Box α) → Bool
  | some a, some b => a.apart b
  | _, _ => false

end Box

def Polygon.box? (p : Polygon α) : Option (Box α) := Box.around? p.exterior

/-- The box around the exterior rings of several polygons. -/
def MultiPolygon.box? (ps : MultiPolygon α) : Option (Box α) :=
  Box.around? (ps.flatMap Polygon.exterior)

end UtmTiles
