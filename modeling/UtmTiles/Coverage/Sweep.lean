import UtmTiles.Coverage.Zone
import UtmTiles.Tile.Basic
import Std.Data.HashSet

/-!
# Coverage

The tiles that cover some polygons are found polygon by polygon and, for each polygon, zone by zone
from west to east (`Sweep`). A tile that is found again is left out, so that each tile comes once, at
the place where it is found first (`Search`).

`Sweep.left` and `Search.left` list what is still to be found; `Search.next_law` says that a search
hands out just that.
-/

namespace UtmTiles

variable {α : Type} [Elementary α]

namespace Coverage

/-- The number of the band that holds a longitude. -/
def bandOf (lon : α) : Int := 1 + Scalar.floorIndex ((lon + 180.0) / Zone.width)

/-- The box lies in the band of a zone. -/
def IsInBand (box : Box α) (zone : Nat) : Prop :=
  Zone.west zone ≤ box.minX ∧ box.maxX ≤ Zone.east zone

instance (box : Box α) (zone : Nat) : Decidable (IsInBand box zone) :=
  inferInstanceAs (Decidable (_ ∧ _))

/-- The band of a zone, from pole to pole. -/
def band (zone : Nat) : Box α := ⟨Zone.west zone, -Zone.maxLat, Zone.east zone, Zone.maxLat⟩

/-- The part of some polygons that lies in the band of a zone. -/
def partInBand (polygons : MultiPolygon α) (box : Box α) (zone : Nat) : MultiPolygon α :=
  if IsInBand box zone then polygons else MultiPolygon.clip polygons (band zone)

/-! ### The zones of a polygon -/

/-- The zones of some polygons that are still to be walked through. -/
structure Sweep (α : Type) where
  polygons : MultiPolygon α
  /-- The box around the polygons. -/
  box : Box α
  nextZone : Nat
  lastZone : Nat

namespace Sweep

/-- All zones whose bands the polygons' box meets; `none` if the polygons have no points. -/
def of? (polygons : MultiPolygon α) : Option (Sweep α) := do
  let box ← MultiPolygon.box? polygons
  return {
    polygons, box
    nextZone := (max (bandOf box.minX) 1).toNat
    lastZone := (min (bandOf box.maxX) 60).toNat }

/-- The walk through one of the zones; `none` if the polygons have no part in it. -/
def walkIn? (s : Sweep α) (step : α) (zone : Nat) : Option (ZoneWalk α) :=
  ZoneWalk.of? (partInBand s.polygons s.box zone) zone step

/-- The walk through the next zone in which the polygons have a part. -/
def next (step : α) (s : Sweep α) : Option (ZoneWalk α) × Sweep α :=
  if s.nextZone ≤ s.lastZone then
    let rest := { s with nextZone := s.nextZone + 1 }
    match s.walkIn? step s.nextZone with
    | some walk => (some walk, rest)
    | none => next step rest
  else (none, s)
termination_by s.lastZone + 1 - s.nextZone

/-- The zones still to be walked through, from west to east. -/
def zones (s : Sweep α) : List Nat := List.range' s.nextZone (s.lastZone + 1 - s.nextZone)

def left (step : α) (s : Sweep α) : List (ZoneWalk α) := s.zones.filterMap (s.walkIn? step)

omit [Elementary α] in
theorem zones_of_le {s : Sweep α} (h : s.nextZone ≤ s.lastZone) :
    s.zones = s.nextZone :: zones { s with nextZone := s.nextZone + 1 } := by
  have hcount : s.lastZone + 1 - s.nextZone = s.lastZone + 1 - (s.nextZone + 1) + 1 := by omega
  simp only [zones, hcount, List.range'_succ]

omit [Elementary α] in
theorem zones_of_lt {s : Sweep α} (h : s.lastZone < s.nextZone) : s.zones = [] := by
  rw [zones, Nat.sub_eq_zero_of_le h, List.range'_zero]

/-- A call hands out the first of the walks that are left, and leaves the others. -/
theorem next_law (step : α) (s : Sweep α) :
    (next step s).1 = (s.left step).head? ∧ (next step s).2.left step = (s.left step).tail := by
  fun_induction next step s with
  | case1 s hzone rest walk hwalk =>
    have hleft : s.left step = walk :: rest.left step := by
      rw [left, zones_of_le hzone, List.filterMap_cons_some hwalk]
      rfl
    rw [hleft]
    exact ⟨rfl, rfl⟩
  | case2 s hzone rest hnone ih =>
    have hleft : s.left step = rest.left step := by
      rw [left, zones_of_le hzone, List.filterMap_cons_none hnone]
      rfl
    rw [hleft]
    exact ih
  | case3 s hzone =>
    have hleft : s.left step = [] := by
      rw [left, zones_of_lt (Nat.lt_of_not_le hzone), List.filterMap_nil]
    rw [hleft]
    exact ⟨rfl, rfl⟩

/-- The sites of all walks still to come. -/
def sites (step : α) (s : Sweep α) : List Site := (s.left step).flatMap ZoneWalk.left

/-- Sweeps hand out the walks through zones. -/
def producer (step : α) : Producer (Sweep α) (ZoneWalk α) where
  next := next step
  left := left step
  next_fst s := (next_law step s).1
  left_next s := (next_law step s).2

end Sweep

/-- The sites at which cells touch some polygons, zone after zone. -/
def sitesOf (step : α) (polygons : MultiPolygon α) : List Site :=
  (Sweep.of? polygons).elim [] (Sweep.sites step)

/-! ### All polygons -/

/-- A search for the sites of some polygons, under way. -/
structure Search (α : Type) where
  /-- Polygons that have not been looked at. -/
  shape : List (MultiPolygon α)
  sweep : Option (Sweep α)
  walk : Option (ZoneWalk α)
  /-- The sites that have been found. -/
  seen : Std.HashSet Site

namespace Search

/-- A search that has found nothing yet. -/
def start (shape : List (MultiPolygon α)) : Search α := ⟨shape, none, none, ∅⟩

/-- The next site that has not been found before, and the search after it. -/
def next (step : α) (s : Search α) : Option Site × Search α :=
  match _hw : s.walk with
  | some walk =>
    match _h : walk.next with
    | (some site, rest) =>
      if s.seen.contains site then next step { s with walk := some rest }
      else (some site, { s with walk := some rest, seen := s.seen.insert site })
    | (none, _) => next step { s with walk := none }
  | none =>
    match _hs : s.sweep with
    | some sweep =>
      match _h : sweep.next step with
      | (some walk, rest) => next step { s with walk := some walk, sweep := some rest }
      | (none, _) => next step { s with sweep := none }
    | none =>
      match _hp : s.shape with
      | [] => (none, s)
      | polygons :: shape => next step { s with shape, sweep := Sweep.of? polygons }
termination_by
  (s.shape.length, s.sweep.elim 0 (fun sweep => (sweep.left step).length + 1),
    s.walk.elim 0 (fun walk => walk.left.length + 1))
decreasing_by
  · have hleft := ZoneWalk.producer.left_of_next _h
    simp only [_hw, Option.elim_some]
    exact .right _ (.right _ (by rw [show walk.left = site :: rest.left from hleft]; simp))
  · simp only [_hw, Option.elim_some, Option.elim_none]
    exact .right _ (.right _ (Nat.succ_pos _))
  · have hleft := (Sweep.producer step).left_of_next _h
    simp only [_hs, Option.elim_some]
    exact .right _ (.left _ _ (by rw [show sweep.left step = walk :: rest.left step from hleft]; simp))
  · simp only [_hs, Option.elim_some, Option.elim_none]
    exact .right _ (.left _ _ (Nat.succ_pos _))
  · rw [_hp]
    exact .left _ _ (Nat.lt_succ_self _)

/-- The sites that lie ahead, those that have been found before among them. -/
def ahead (step : α) (s : Search α) : List Site :=
  s.walk.elim [] ZoneWalk.left ++
    (s.sweep.elim [] (Sweep.sites step) ++ s.shape.flatMap (sitesOf step))

/-- Sites that are not known, each of them at its first place only. -/
def distinct (known : Std.HashSet Site) : List Site → List Site
  | [] => []
  | site :: rest =>
    if known.contains site then distinct known rest
    else site :: distinct (known.insert site) rest

/-- The sites that are still to be found. -/
def left (step : α) (s : Search α) : List Site := distinct s.seen (s.ahead step)

theorem ahead_of_next (step : α) {s : Search α} {walk rest : ZoneWalk α} {site : Site}
    (hwalk : s.walk = some walk) (hnext : walk.next = (some site, rest)) :
    s.ahead step = site :: ahead step { s with walk := some rest } := by
  have hleft : walk.left = site :: rest.left := ZoneWalk.producer.left_of_next hnext
  simp only [ahead, hwalk, hleft, Option.elim_some, List.cons_append]

/-- A call hands out the first of the sites that are left, and leaves the others. -/
theorem next_law (step : α) (s : Search α) :
    (next step s).1 = (s.left step).head? ∧ (next step s).2.left step = (s.left step).tail := by
  fun_induction next step s with
  | case1 s walk hwalk site rest hnext hseen ih =>
    have hsame : s.left step = left step { s with walk := some rest } := by
      rw [left, ahead_of_next step hwalk hnext, distinct, if_pos hseen]
      rfl
    rw [hsame]
    exact ih
  | case2 s walk hwalk site rest hnext hseen =>
    have hfirst : s.left step = site ::
        left step { s with walk := some rest, seen := s.seen.insert site } := by
      rw [left, ahead_of_next step hwalk hnext, distinct, if_neg hseen]
      rfl
    rw [hfirst]
    exact ⟨rfl, rfl⟩
  | case3 s walk hwalk rest hnext ih =>
    have hsame : s.left step = left step { s with walk := none } := by
      have hleft : walk.left = [] := ZoneWalk.producer.left_of_end hnext
      simp only [left, ahead, hwalk, hleft, Option.elim_some, Option.elim_none]
    rw [hsame]
    exact ih
  | case4 s hwalk sweep hsweep walk rest hnext ih =>
    have hsame : s.left step = left step { s with walk := some walk, sweep := some rest } := by
      have hleft : sweep.left step = walk :: rest.left step :=
        (Sweep.producer step).left_of_next hnext
      simp only [left, ahead, hwalk, hsweep, Sweep.sites, hleft, Option.elim_some,
        Option.elim_none, List.flatMap_cons, List.nil_append, List.append_assoc]
    rw [hsame]
    exact ih
  | case5 s hwalk sweep hsweep rest hnext ih =>
    have hsame : s.left step = left step { s with sweep := none } := by
      have hleft : sweep.left step = [] := (Sweep.producer step).left_of_end hnext
      simp only [left, ahead, hsweep, Sweep.sites, hleft, Option.elim_some, Option.elim_none,
        List.flatMap_nil]
    rw [hsame]
    exact ih
  | case6 s hwalk hsweep hshape =>
    have hleft : s.left step = [] := by
      simp only [left, ahead, hwalk, hsweep, hshape, Option.elim_none, List.flatMap_nil,
        List.append_nil, distinct]
    rw [hleft]
    exact ⟨rfl, rfl⟩
  | case7 s hwalk hsweep polygons shape hshape ih =>
    have hsame : s.left step = left step { s with shape, sweep := Sweep.of? polygons } := by
      simp only [left, ahead, hsweep, hshape, sitesOf, Option.elim_none, List.flatMap_cons,
        List.nil_append]
    rw [hsame]
    exact ih

def producer (step : α) : Producer (Search α) Site where
  next := next step
  left := left step
  next_fst s := (next_law step s).1
  left_next s := (next_law step s).2

end Search

end Coverage

def Grid.tileAtSite (g : Grid α) (site : Site) : Tile α :=
  { grid := g, zone := site.zone, ti := site.cell.ti, tj := site.cell.tj }

/-- Searches hand out the tiles at the sites they find. -/
def Grid.tileSearch (g : Grid α) : Producer (Coverage.Search α) (Tile α) :=
  (Coverage.Search.producer g.step).map g.tileAtSite

def Grid.coverage (g : Grid α) (shape : List (MultiPolygon α)) : Sequence (Tile α) :=
  g.tileSearch.elements (Coverage.Search.start shape)

end UtmTiles
