import UtmTiles.Plane.Containment
import UtmTiles.Plane.Measure

/-!
# Clipping to a box

`MultiPolygon.clip` gives the part of a region that lies in a box. A point belongs to the region of
some rings if an odd number of them go round it.

1. A ring that crosses itself is cut into rings that do not (`Ring.uncrossed`).
2. The rings are turned so that the region lies to the left of each (`Ring.oriented`).
3. Each side of the box in turn cuts the rings into chains that lie inside of the side's line. Along
   that line the ends of the chains alternate between entries and exits, and the region lies between
   an end and its partner: so partners are joined, and rings result again (`Border.clip`).
4. The rings that run counter-clockwise become polygons, the others their holes.
-/

namespace UtmTiles

variable {α : Type} [Scalar α]

/-! ### Rings that cross themselves -/

/-- The point where two crossing segments meet. -/
def Segment.crossing (s t : Segment α) : Point α :=
  let dx := s.2.x - s.1.x
  let dy := s.2.y - s.1.y
  let ex := t.2.x - t.1.x
  let ey := t.2.y - t.1.y
  let share := ((t.1.x - s.1.x) * ey - (t.1.y - s.1.y) * ex) / (dx * ey - dy * ex)
  ⟨s.1.x + share * dx, s.1.y + share * dy⟩

namespace Ring

/-- The places of the first two segments that cross, counted from `start`. -/
def crossing? : List (Segment α) → Nat → Option (Nat × Nat)
  | [], _ => none
  | s :: rest, start =>
    let box := Segment.box s
    match rest.findIdx? (fun t => !Box.apart box (Segment.box t) && Segment.crosses s t) with
    | some k => some (start, start + 1 + k)
    | none => crossing? rest (start + 1)

/-- Rings that do not cross themselves and go round the same points. At a crossing the ring falls
into the loop from there to there and the rest. -/
def uncrossed : Nat → Ring α → List (Ring α)
  | 0, ring => [ring]
  | fuel + 1, ring =>
    match crossing? ring.segments 0 with
    | none => [ring]
    | some (i, j) =>
      match ring.segments[i]?, ring.segments[j]? with
      | some s, some t =>
        let p := s.crossing t
        -- from the crossing along the ring back to it
        let loop := p :: (ring.drop (i + 1)).take (j - i) ++ [p]
        let rest := ring.take (i + 1) ++ p :: ring.drop (j + 1)
        uncrossed fuel loop ++ uncrossed fuel rest
      | _, _ => [ring]

/-- A ring goes round another that it does not cross. -/
def goesRound (outer inner : Ring α) : Bool :=
  match (inner ++ inner.segments.map Segment.middle).find? (outer.locate · != .boundary) with
  | some p => outer.locate p = .inside
  | none => false

/-- The other members of a list, for each member. -/
def withOthers {β : Type} : List β → List β → List (β × List β)
  | _, [] => []
  | before, b :: rest => (b, before ++ rest) :: withOthers (before ++ [b]) rest

/-- The rings, turned so that their region is to the left of each. Rings without area are left
out. -/
def oriented (rings : List (Ring α)) : List (Ring α) :=
  let rings := rings.filter fun r => !Scalar.same r.signedArea 0.0
  (withOthers [] rings).map fun (ring, others) =>
    let isHole := others.countP (goesRound · ring) % 2 == 1
    if isHole == decide (0.0 < ring.signedArea) then ring.reverse else ring

/-- Without points that repeat the one before. -/
def withoutRepeats : List (Point α) → List (Point α)
  | p :: q :: rest =>
    if p.same q then withoutRepeats (p :: rest) else p :: withoutRepeats (q :: rest)
  | points => points
termination_by points => points.length

end Ring

/-! ### One side of a box -/

/-- A side of a box: a line along one axis and the side of it that is kept. -/
structure Border (α : Type) where
  /-- The line is vertical: a longitude bounds. -/
  vertical : Bool
  bound : α
  /-- What is kept has larger coordinates. -/
  upper : Bool

/-- The part of a ring between entering the kept side and leaving it. Its first and its last point
lie on the line. -/
structure Chain (α : Type) where
  points : List (Point α)

namespace Border

def across (b : Border α) (p : Point α) : α := if b.vertical then p.x else p.y

def along (b : Border α) (p : Point α) : α := if b.vertical then p.y else p.x

/-- The point lies on the kept side and not on the line. -/
def keeps (b : Border α) (p : Point α) : Bool :=
  if b.upper then decide (b.bound < b.across p) else decide (b.across p < b.bound)

/-- The point lies on the other side and not on the line. -/
def drops (b : Border α) (p : Point α) : Bool :=
  if b.upper then decide (b.across p < b.bound) else decide (b.bound < b.across p)

/-- The point of the line between a point that is kept and one that is not. -/
def passage (b : Border α) (kept lost : Point α) : Point α :=
  if Scalar.same (b.across lost) b.bound then lost
  else
    let share := (b.bound - b.across kept) / (b.across lost - b.across kept)
    let along := b.along kept + share * (b.along lost - b.along kept)
    if b.vertical then ⟨b.bound, along⟩ else ⟨along, b.bound⟩

/-- The vertices of a ring without the repeated last one, and whether each counts as kept: a vertex
on the line between two kept ones does. -/
def marked (b : Border α) (ring : Ring α) : List (Point α × Bool) :=
  let vertices := ring.dropLast
  match vertices.getLast?, vertices.head? with
  | some last, some first =>
    let before := last :: vertices.dropLast
    let after := vertices.tail ++ [first]
    (before.zip (vertices.zip after)).map fun (p, v, n) =>
      (v, b.keeps v || (!b.drops v && b.keeps p && b.keeps n))
  | _, _ => []

/-- The chains along a path, which starts with a point that is not kept. The chain under way is
given in reverse order. -/
def chains (b : Border α) : Point α → List (Point α × Bool) → Option (List (Point α)) →
    List (Chain α)
  | _, [], _ => []
  | p, (q, kept) :: rest, open? =>
    match open?, kept with
    | some points, true => chains b q rest (some (q :: points))
    | some points, false => ⟨(b.passage p q :: points).reverse⟩ :: chains b q rest none
    | none, true => chains b q rest (some [q, b.passage q p])
    | none, false => chains b q rest none

/-- The chains of a ring, or the whole ring if it is kept. -/
def cut (b : Border α) (ring : Ring α) : List (Ring α) × List (Chain α) :=
  let vertices := b.marked ring
  match vertices.findIdx? (fun v => !v.2) with
  | none => ([ring], [])
  | some i =>
    match vertices.drop i with
    | [] => ([], [])
    | (first, _) :: rest => ([], b.chains first (rest ++ vertices.take i ++ [(first, false)]) none)

/-- An end of a chain: where it lies on the line, whether it is the chain's entry, and which
chain's. -/
structure End (α : Type) where
  along : α
  isEntry : Bool
  chain : Nat

/-- Entries and exits next to each other are partners: as pairs of the exit's and the entry's
chain. -/
def partners : List (End α) → List (Nat × Nat)
  | [] => []
  | e :: rest =>
    match h : rest.findIdx? (fun f => f.isEntry != e.isEntry) with
    | none => []
    | some k =>
      have : (rest.eraseIdx k).length < rest.length + 1 := by
        have := List.length_eraseIdx_le (l := rest) (i := k)
        omega
      match rest[k]? with
      | none => []
      | some f => (if e.isEntry then (f.chain, e.chain) else (e.chain, f.chain)) ::
          partners (rest.eraseIdx k)
termination_by ends => ends.length

/-- The chains from one chain on, each followed by the partner of its exit, up to the chain that the
walk started with. -/
def follow (links : List (Nat × Nat)) (start : Nat) : Nat → Nat → List Nat
  | 0, _ => []
  | fuel + 1, i =>
    match links.lookup i with
    | none => [i]
    | some j => if j = start then [i] else i :: follow links start fuel j

/-- The rings that chains form when the partners among their ends are joined. -/
def joined (b : Border α) (chains : List (Chain α)) : List (Ring α) :=
  let ends := chains.zipIdx.flatMap fun (c, i) =>
    (c.points.head?.map fun p => (⟨b.along p, true, i⟩ : End α)).toList ++
      (c.points.getLast?.map fun p => (⟨b.along p, false, i⟩ : End α)).toList
  let links := partners (ends.mergeSort fun e f => decide (e.along ≤ f.along))
  let (rings, _) := chains.zipIdx.foldl (fun ((rings, used) : List (Ring α) × List Nat) (_, i) =>
    if used.contains i then (rings, used)
    else
      -- no walk is longer than there are chains
      let walk := follow links i chains.length i
      let points := walk.flatMap fun k => (chains[k]?.map Chain.points).getD []
      (Ring.closed (Ring.withoutRepeats points) :: rings, walk ++ used)) ([], [])
  rings.reverse

/-- The part of some oriented rings on the kept side. -/
def clip (b : Border α) (rings : List (Ring α)) : List (Ring α) :=
  if rings.all (·.all fun p => !b.drops p) then rings
  else
    let cuts := rings.map b.cut
    let rings := cuts.flatMap Prod.fst ++ b.joined (cuts.flatMap Prod.snd)
    rings.filter fun r => !Scalar.same r.signedArea 0.0

end Border

/-! ### The box -/

def Box.borders (b : Box α) : List (Border α) :=
  [⟨true, b.minX, true⟩, ⟨true, b.maxX, false⟩, ⟨false, b.minY, true⟩, ⟨false, b.maxY, false⟩]

/-- The polygons that oriented rings bound: each hole goes to the smallest polygon around it. -/
def MultiPolygon.ofRings (rings : List (Ring α)) : MultiPolygon α :=
  let exteriors := rings.filter fun r => decide (0.0 < r.signedArea)
  let holes := rings.filter fun r => !decide (0.0 < r.signedArea)
  let owner? (hole : Ring α) : Option Nat :=
    (exteriors.zipIdx.filter fun (e, _) => Ring.goesRound e hole).foldl
      (fun (best : Option (Ring α × Nat)) (e, i) =>
        match best with
        | some (f, _) => if e.signedArea < f.signedArea then some (e, i) else best
        | none => some (e, i)) none |>.map Prod.snd
  exteriors.zipIdx.map fun (e, i) => ⟨e, holes.filter fun h => owner? h == some i⟩

def MultiPolygon.isFinite (ps : MultiPolygon α) : Bool :=
  ps.all fun p => p.rings.all fun r => r.all fun q => Scalar.isFinite q.x && Scalar.isFinite q.y

/-- The part of some polygons that lies in a box. Polygons with a coordinate that is not finite have
no such part. -/
def MultiPolygon.clip (ps : MultiPolygon α) (box : Box α) : MultiPolygon α :=
  if MultiPolygon.isFinite ps then
    let rings := ps.flatMap fun p =>
      p.rings.flatMap fun r => Ring.uncrossed (r.length * r.length) r
    MultiPolygon.ofRings (box.borders.foldl (fun rings b => b.clip rings) (Ring.oriented rings))
  else []

end UtmTiles
