import UtmTiles.Plane.Meeting

/-!
# Containment

Several polygons contain others when no part of the others lies outside of them and the interiors
have a point in common. Two conditions decide this:

* no point of an outer boundary lies in the interior of an inner polygon
  (`Polygon.isEnteredBy`), so that each inner interior lies on one side of the outer boundaries;
* that side is the inside, as one point of each inner polygon shows (`Polygon.isInside`).
-/

namespace UtmTiles

variable {α : Type} [Scalar α]

namespace Segment

/-- Two segments cross at a point that is no end of either. -/
def crosses (s t : Segment α) : Bool :=
  opposite (s.1.turn s.2 t.1) (s.1.turn s.2 t.2) && opposite (t.1.turn t.2 s.1) (t.1.turn t.2 s.2)
where
  /-- Turns to different sides. -/
  opposite : Ordering → Ordering → Bool
    | .lt, .gt | .gt, .lt => true
    | _, _ => false

/-- The point halfway between the ends. -/
def middle (s : Segment α) : Point α := ⟨(s.1.x + s.2.x) / 2.0, (s.1.y + s.2.y) / 2.0⟩

end Segment

/-- The segments of all rings of a polygon. -/
def Polygon.segments (p : Polygon α) : List (Segment α) := p.rings.flatMap Ring.segments

/-- A segment passes through the interior of a polygon whose boundary it does not cross and whose
vertices it does not touch, except with its ends. -/
def Polygon.isEnteredByPiece (p : Polygon α) (s : Segment α) : Bool :=
  match p.locate s.1, p.locate s.2 with
  | .inside, _ | _, .inside => true
  | .boundary, .boundary =>
    !(p.segments.any fun t => Segment.holds t s.1 && Segment.holds t s.2) &&
      p.locate (Segment.middle s) = .inside
  | _, _ => false

/-- The pieces into which points on a segment cut it. -/
def Segment.pieces (s : Segment α) (cuts : List (Point α)) : List (Segment α) :=
  let before (p q : Point α) : Bool :=
    if s.1.x < s.2.x then decide (p.x ≤ q.x)
    else if s.2.x < s.1.x then decide (q.x ≤ p.x)
    else if s.1.y < s.2.y then decide (p.y ≤ q.y)
    else decide (q.y ≤ p.y)
  let points := s.1 :: cuts.mergeSort before ++ [s.2]
  points.zip points.tail

/-- A segment passes through the interior of a polygon. -/
def Polygon.isEnteredBy (p : Polygon α) (s : Segment α) : Bool :=
  !Box.apart? p.box? (some (Segment.box s)) &&
    (p.segments.any (Segment.crosses s) ||
      let touched := (p.rings.flatMap id).filter fun v =>
        Segment.holds s v && !v.same s.1 && !v.same s.2
      (Segment.pieces s touched).any p.isEnteredByPiece)

/-- Where a point lies in relation to several polygons. -/
def MultiPolygon.locate (ps : MultiPolygon α) (p : Point α) : Location :=
  ps.foldl (fun found poly =>
    match found, poly.locate p with
    | .inside, _ | _, .inside => .inside
    | .boundary, _ | _, .boundary => .boundary
    | .outside, .outside => .outside) .outside

/-- Points of a polygon: its vertices, the middles of its edges, and centers of triangles of three
vertices in a row as far as they lie in its interior. -/
def Polygon.samples (p : Polygon α) : List (Point α) :=
  let ring := p.exterior
  let third : α := 3.0
  let centers := (ring.zip (ring.tail.zip ring.tail.tail)).map fun (a, b, c) =>
    (⟨(a.x + b.x + c.x) / third, (a.y + b.y + c.y) / third⟩ : Point α)
  ring ++ (Ring.segments ring).map Segment.middle ++ centers.filter (p.locate · = .inside)

/-- A polygon whose interior no outer boundary enters lies inside of the outer polygons. -/
def Polygon.isInside (p : Polygon α) (outer : MultiPolygon α) : Bool :=
  match p.samples.find? (fun s => MultiPolygon.locate outer s != .boundary) with
  | some s => MultiPolygon.locate outer s = .inside
  | none => false

def MultiPolygon.contains (outer inner : MultiPolygon α) : Bool :=
  match MultiPolygon.box? outer, MultiPolygon.box? inner with
  | some a, some b =>
    decide (a.minX ≤ b.minX ∧ b.maxX ≤ a.maxX ∧ a.minY ≤ b.minY ∧ b.maxY ≤ a.maxY) &&
      inner.all fun p =>
        p.isInside outer && (outer.flatMap Polygon.segments).all (fun s => !p.isEnteredBy s)
  | _, _ => false

end UtmTiles
