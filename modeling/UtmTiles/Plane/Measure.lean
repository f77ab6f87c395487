import UtmTiles.Plane.Basic

/-!
# Areas and centroids

Areas come from the shoelace sum, taken relative to the ring's first point. A hole takes its area
away from its polygon, whatever way it runs.
-/

namespace UtmTiles

variable {α : Type} [Scalar α]

namespace Ring

/-- The shoelace terms of a ring relative to its first point, with the segments moved there. -/
def terms (ring : Ring α) : List (Segment α × α) :=
  match ring with
  | [] => []
  | first :: _ =>
    (segments ring).map fun (a, b) =>
      let a : Point α := ⟨a.x - first.x, a.y - first.y⟩
      let b : Point α := ⟨b.x - first.x, b.y - first.y⟩
      ((a, b), a.x * b.y - a.y * b.x)

/-- The area of a ring, positive if it runs counter-clockwise. -/
def signedArea (ring : Ring α) : α :=
  if ring.length < 3 then 0.0 else (terms ring).foldl (fun sum t => sum + t.2) 0.0 / 2.0

/-- The centroid of a ring with an area. -/
def centroid (ring : Ring α) : Point α :=
  let six := 6.0 * signedArea ring
  let sum := (terms ring).foldl (fun (sum : Point α) ((a, b), t) =>
    ⟨sum.x + (b.x + a.x) * t, sum.y + (b.y + a.y) * t⟩) ⟨0.0, 0.0⟩
  match ring with
  | [] => ⟨0.0, 0.0⟩
  | first :: _ => ⟨sum.x / six + first.x, sum.y / six + first.y⟩

end Ring

def Polygon.area (p : Polygon α) : α :=
  Scalar.abs (p.interiors.foldl (fun rest hole => rest - Scalar.abs (Ring.signedArea hole))
    (Scalar.abs (Ring.signedArea p.exterior)))

def MultiPolygon.area (ps : MultiPolygon α) : α := ps.foldl (fun sum p => sum + p.area) 0.0

/-- A point with a weight. -/
structure Weighted (α : Type) where
  weight : α
  x : α
  y : α

namespace Weighted

def zero : Weighted α := ⟨0.0, 0.0, 0.0⟩

/-- A ring, weighted by its area. Rings without area have no weight. -/
def ofRing (ring : Ring α) : Weighted α :=
  let area := Scalar.abs (Ring.signedArea ring)
  if Scalar.same area 0.0 then zero
  else
    let c := Ring.centroid ring
    ⟨area, c.x * area, c.y * area⟩

def add (a b : Weighted α) : Weighted α := ⟨a.weight + b.weight, a.x + b.x, a.y + b.y⟩

def sub (a b : Weighted α) : Weighted α := ⟨a.weight - b.weight, a.x - b.x, a.y - b.y⟩

def ofPolygon (p : Polygon α) : Weighted α :=
  (ofRing p.exterior).sub (p.interiors.foldl (fun sum hole => sum.add (ofRing hole)) zero)

end Weighted

/-- The `y` of the centroid of several polygons; `none` if they have no points. Polygons without
area have the mean height of their points. -/
def MultiPolygon.centroidY? (ps : MultiPolygon α) : Option α :=
  let total := ps.foldl (fun sum p => sum.add (Weighted.ofPolygon p)) Weighted.zero
  if !Scalar.same total.weight 0.0 then some (total.y / total.weight)
  else
    match ps.flatMap Polygon.exterior with
    | [] => none
    | points =>
      some (points.foldl (fun sum p => sum + p.y) 0.0 / Scalar.ofInt points.length)

end UtmTiles
