import UtmTiles.Plane.Clip
import UtmTiles.Utm.Projection

/-!
# Footprints

The footprint of a box in the plane of a zone is the part of the globe between the straight lines
that join its corners' positions. All of it lies in [-180, 180] x [-90, 90]:

* a box with a pole in it reaches from a chain through its corners to the pole, at all longitudes;
* a box across the antimeridian falls into a western and an eastern part;
* any other box is the polygon of its four corners.
-/

namespace UtmTiles
namespace Utm

variable {α : Type} [Elementary α]

/-- Northing of the north pole in meters. -/
def poleNorthing : α := 9997964.943

/-- Latitude of the cap that closes a chain of corners beyond its pole. -/
def capLat : α := 91.0

def turn : α := 360.0

def world : Box α := ⟨-Zone.maxLon, -Zone.maxLat, Zone.maxLon, Zone.maxLat⟩

def cornerPositions (zone : Nat) (box : Box α) : List (Point α) :=
  box.corners.map fun p =>
    let (lon, lat) := unproject zone p.x p.y
    ⟨lon, lat⟩

/-- The position one turn further east. -/
def eastOf (p : Point α) : Point α := ⟨p.x + turn, p.y⟩

/-- The position one turn further west. -/
def westOf (p : Point α) : Point α := ⟨p.x - turn, p.y⟩

/-- The corners in order of their longitudes, from the last one a turn further west to the first one
a turn further east. -/
def chain (corners : List (Point α)) : List (Point α) :=
  let sorted := corners.mergeSort fun p q => !decide (q.x < p.x)
  match sorted.head?, sorted.getLast? with
  | some first, some last => westOf last :: sorted ++ [eastOf first]
  | _, _ => []

/-- The chain of the corners, closed by a cap beyond the pole. It runs counter-clockwise. -/
def aroundPole (corners : List (Point α)) (pole : Hemisphere) : List (Point α) :=
  let chain := chain corners
  match chain.head?, chain.getLast? with
  | some west, some east =>
    match pole with
    | .north => chain ++ [⟨east.x, capLat⟩, ⟨west.x, capLat⟩]
    | .south => chain.reverse ++ [⟨west.x, -capLat⟩, ⟨east.x, -capLat⟩]
  | _, _ => []

/-- The part of the polygon through some points that lies in a box. -/
def clipped (points : List (Point α)) (window : Box α) : MultiPolygon α :=
  MultiPolygon.clip [Polygon.ofRings points []] window

/-- The smallest and the largest longitude of some positions. -/
def lonRange? : List (Point α) → Option (α × α)
  | [] => none
  | p :: rest =>
    some (rest.foldl (fun (low, high) q => (Scalar.min low q.x, Scalar.max high q.x)) (p.x, p.x))

/-- The corners lie on both sides of the antimeridian. -/
def crossesAntimeridian (corners : List (Point α)) : Bool :=
  match lonRange? corners with
  | some (low, high) => decide (180.0 < high - low)
  | none => false

/-- The corners, with those of the eastern hemisphere a turn further west. -/
def westernRing (corners : List (Point α)) : List (Point α) :=
  corners.map fun p => if 0.0 ≤ p.x then westOf p else p

/-- The corners, with those of the western hemisphere a turn further east. -/
def easternRing (corners : List (Point α)) : List (Point α) :=
  corners.map fun p => if p.x < 0.0 then eastOf p else p

/-- The part of the globe that a box in the plane of a zone covers. -/
def footprint (zone : Nat) (box : Box α) : MultiPolygon α :=
  let corners := cornerPositions zone box
  if box.Contains ⟨falseEasting, poleNorthing⟩ then clipped (aroundPole corners .north) world
  else if box.Contains ⟨falseEasting, -poleNorthing⟩ then clipped (aroundPole corners .south) world
  else if crossesAntimeridian corners then
    clipped (westernRing corners) { (world : Box α) with maxX := 0.0 } ++
      clipped (easternRing corners) { (world : Box α) with minX := 0.0 }
  else [Polygon.ofRings corners []]

end Utm
end UtmTiles
