import UtmTiles.Plane.Position

/-!
# Meeting shapes

Two shapes meet when they have a point in common; touching boundaries are enough.
-/

namespace UtmTiles

variable {α : Type} [Scalar α]

/-- The point lies in the box spanned by two others. -/
def Point.inSpan (p a b : Point α) : Bool :=
  Scalar.isBetween p.x a.x b.x && Scalar.isBetween p.y a.y b.y

namespace Segment

def holds (s : Segment α) (p : Point α) : Bool := s.1.turn s.2 p == .eq && p.inSpan s.1 s.2

/-- Two segments have a point in common. -/
def meets (s t : Segment α) : Bool :=
  if s.1.same s.2 then holds t s.1
  else
    let turn1 := s.1.turn s.2 t.1
    let turn2 := s.1.turn s.2 t.2
    if turn1 != turn2 then t.1.turn t.2 s.1 != t.1.turn t.2 s.2
    else turn1 == .eq && (t.1.inSpan s.1 s.2 || t.2.inSpan s.1 s.2 || s.2.inSpan t.1 t.2)

def box (s : Segment α) : Box α := Box.ofCorners s.1 s.2

end Segment

/-- A ring and a segment have a point in common. -/
def Ring.meetsSegment (ring : Ring α) (s : Segment α) : Bool :=
  !Box.apart? (Box.around? ring) (some (Segment.box s)) &&
    (Ring.segments ring).any (fun t => Segment.meets t s)

/-- A polygon and a segment have a point in common. -/
def Polygon.meetsSegment (poly : Polygon α) (s : Segment α) : Bool :=
  poly.rings.any (Ring.meetsSegment · s) ||
    poly.locate s.1 != .outside || poly.locate s.2 != .outside

/-- A polygon and a ring have a point in common. -/
def Polygon.meetsRing (poly : Polygon α) (ring : Ring α) : Bool :=
  !Box.apart? poly.box? (Box.around? ring) && (Ring.segments ring).any poly.meetsSegment

/-- Two polygons have a point in common. -/
def Polygon.meets (a b : Polygon α) : Bool :=
  !Box.apart? a.box? b.box? && (b.rings.any a.meetsRing || b.meetsRing a.exterior)

/-- One of several polygons has a point in common with another polygon. -/
def MultiPolygon.meets (ps : MultiPolygon α) (poly : Polygon α) : Bool :=
  !Box.apart? (MultiPolygon.box? ps) poly.box? && ps.any (·.meets poly)

end UtmTiles
