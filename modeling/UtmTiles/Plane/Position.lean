import UtmTiles.Plane.Basic

/-!
# Where a point lies

A point lies inside of a ring, on it or outside. Inside are the points that the ring goes round: the
number of its upward edges that pass to the right of the point differs from the number of its
downward ones.
-/

namespace UtmTiles

variable {α : Type} [Scalar α]

/-- Where a point lies in relation to a region. -/
inductive Location where
  | inside | boundary | outside
  deriving DecidableEq, Repr

/-- What an edge adds to the number of turns a ring makes around a point: `none` if the point lies
on the edge. An edge holds its lower end and not its upper one. -/
def windingStep? (p a b : Point α) : Option Int :=
  if a.y ≤ p.y then
    if p.y ≤ b.y then
      match a.turn b p with
      | .gt => if Scalar.same b.y p.y then some 0 else some 1
      | .eq => if Scalar.isBetween p.x a.x b.x then none else some 0
      | .lt => some 0
    else some 0
  else if b.y ≤ p.y then
    match a.turn b p with
    | .lt => some (-1)
    | .eq => if Scalar.isBetween p.x a.x b.x then none else some 0
    | .gt => some 0
  else some 0

/-- The number of turns some edges make around a point: `none` if it lies on one of them. -/
def winding? (p : Point α) : List (Segment α) → Int → Option Int
  | [], turns => some turns
  | (a, b) :: rest, turns =>
    match windingStep? p a b with
    | some n => winding? p rest (turns + n)
    | none => none

/-- Where a point lies in relation to a ring. -/
def Ring.locate (ring : Ring α) (p : Point α) : Location :=
  match ring with
  | [] => .outside
  | [q] => if p.same q then .boundary else .outside
  | _ =>
    match winding? p (Ring.segments ring) 0 with
    | none => .boundary
    | some 0 => .outside
    | some _ => .inside

/-- Where a point lies in relation to a polygon: a point inside of a hole is outside. -/
def Polygon.locate (poly : Polygon α) (p : Point α) : Location :=
  match Ring.locate poly.exterior p with
  | .inside =>
    match poly.interiors.find? (fun hole => Ring.locate hole p != .outside) with
    | some hole => if Ring.locate hole p = .boundary then .boundary else .outside
    | none => .inside
  | other => other

end UtmTiles
