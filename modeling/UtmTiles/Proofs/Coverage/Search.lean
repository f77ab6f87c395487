import UtmTiles.Coverage.Sweep
import UtmTiles.Proofs.Key.Text
import Mathlib.Data.List.Nodup
import Mathlib.Data.List.Perm.Basic

/-!
# What a search finds

A search is a loop over polygons, the zones of a polygon and the cells of a zone, with a set of the
sites it has found. `Search.next_law` ties it to a list; here the list is described without any
state. It is the sites of all walks, polygon after polygon and zone after zone from west to east,
without the repetitions of sites that stand further ahead.
-/

namespace UtmTiles

variable {α : Type} [Elementary α]

namespace Coverage

/-! ## The walks of some polygons -/

/-- The zones that are walked through for some polygons, from west to east. -/
def zonesOf (polygons : MultiPolygon α) : List Nat := (Sweep.of? polygons).elim [] Sweep.zones

/-- The sites that the walk for some polygons in a zone hands out. -/
def sitesIn (step : α) (polygons : MultiPolygon α) (zone : Nat) : List Site :=
  ((Sweep.of? polygons).bind fun sweep => sweep.walkIn? step zone).elim [] ZoneWalk.left

theorem pairwise_zonesOf (polygons : MultiPolygon α) : (zonesOf polygons).Pairwise (· < ·) := by
  unfold zonesOf
  cases Sweep.of? polygons with
  | none => exact List.Pairwise.nil
  | some sweep => exact List.pairwise_lt_range' _

/-- The sites of some polygons come zone after zone. -/
theorem sitesOf_eq (step : α) (polygons : MultiPolygon α) :
    sitesOf step polygons = (zonesOf polygons).flatMap (sitesIn step polygons) := by
  unfold sitesOf zonesOf sitesIn
  cases Sweep.of? polygons with
  | none => rfl
  | some sweep =>
    simp only [Option.elim_some, Option.bind_some, Sweep.sites, Sweep.left]
    induction sweep.zones with
    | nil => rfl
    | cons zone zones ih =>
      cases hwalk : sweep.walkIn? step zone with
      | none =>
        rw [List.filterMap_cons_none hwalk, List.flatMap_cons, hwalk, ih]
        rfl
      | some walk =>
        rw [List.filterMap_cons_some hwalk, List.flatMap_cons, List.flatMap_cons, hwalk, ih]
        rfl

/-! ## Repetitions -/

/-- No element is left twice. -/
theorem nodup_eraseDups {β : Type} [BEq β] [LawfulBEq β] (bs : List β) : bs.eraseDups.Nodup := by
  match bs with
  | [] => exact List.nodup_nil
  | b :: rest =>
    rw [List.eraseDups_cons]
    refine List.nodup_cons.2 ⟨?_, nodup_eraseDups _⟩
    simp only [List.mem_eraseDups, List.mem_filter, beq_self_eq_true, Bool.not_true,
      Bool.false_eq_true, and_false, not_false_eq_true]
termination_by bs.length
decreasing_by exact Nat.lt_succ_of_le (List.length_filter_le _ _)

namespace Search

/-- Leaving out known sites on the way is the same as leaving them out first. -/
theorem distinct_eq (known : Std.HashSet Site) (sites : List Site) :
    distinct known sites = (sites.filter fun site => !known.contains site).eraseDups := by
  induction sites generalizing known with
  | nil => rfl
  | cons site rest ih =>
    rw [distinct, List.filter_cons]
    cases hknown : known.contains site with
    | true =>
      rw [if_pos rfl, ih]
      rfl
    | false =>
      -- the sites that are known later are those known now and this one
      have hrest : ∀ s ∈ rest, (!(known.insert site).contains s) =
          ((!s == site) && !known.contains s) := fun s _ => by
        rw [Std.HashSet.contains_insert, Bool.not_or, BEq.comm]
      rw [if_neg Bool.false_ne_true, ih, List.filter_congr hrest, ← List.filter_filter]
      exact List.eraseDups_cons.symm

/-- A new search finds the sites of its polygons, each at its first place only. -/
theorem left_start (step : α) (shape : List (MultiPolygon α)) :
    (start shape).left step = (shape.flatMap (sitesOf step)).eraseDups := by
  rw [left, distinct_eq]
  simp only [start, ahead, Option.elim_none, List.nil_append, Std.HashSet.contains_empty,
    Bool.not_false, List.filter_true]

end Search
end Coverage

open Coverage

namespace Grid

/-! ## Tiles -/

theorem toList_coverage (g : Grid α) (shape : List (MultiPolygon α)) :
    (g.coverage shape).toList = (shape.flatMap (sitesOf g.step)).eraseDups.map g.tileAtSite := by
  rw [coverage, Producer.toList_elements, ← Search.left_start]
  rfl

theorem mem_coverage {g : Grid α} {shape : List (MultiPolygon α)} {t : Tile α} :
    t ∈ (g.coverage shape).toList ↔
      ∃ polygons ∈ shape, ∃ site ∈ sitesOf g.step polygons, g.tileAtSite site = t := by
  rw [toList_coverage]
  simp only [List.mem_map, List.mem_eraseDups, List.mem_flatMap]
  constructor
  · rintro ⟨site, ⟨polygons, hpolygons, hsite⟩, ht⟩
    exact ⟨polygons, hpolygons, site, hsite, ht⟩
  · rintro ⟨polygons, hpolygons, site, hsite, ht⟩
    exact ⟨site, ⟨polygons, hpolygons, hsite⟩, ht⟩

theorem toText_tileAtSite_injective (g : Grid Float) :
    Function.Injective fun site => (g.tileAtSite site).toText := by
  rintro ⟨z, ti, tj⟩ ⟨w, ui, uj⟩ h
  have hplace : z = w ∧ ti = ui ∧ tj = uj := by
    refine TileKey.place_of_toText ?_ h
    rfl
  obtain ⟨rfl, rfl, rfl⟩ := hplace
  rfl

/-- A search gives, call after call, the tiles at the sites of its polygons, polygon after polygon
and zone after zone from west to east, each at its first place only, and from then on nothing. So
the keys of the tiles differ, and the tiles of several polygons are those of the single polygons, in
whatever order these come. -/
theorem coverage_is_first_finds (g : Grid Float) (shape : List (MultiPolygon Float)) :
    let found := shape.flatMap fun polygons =>
      (zonesOf polygons).flatMap (sitesIn g.step polygons)
    let tiles := found.eraseDups.map g.tileAtSite
    (∀ polygons : MultiPolygon Float, (zonesOf polygons).Pairwise (· < ·)) ∧
    (∀ n, g.tileSearch.ask (Search.start shape) n = tiles[n]?) ∧
    (g.coverage shape).toList = tiles ∧
    (tiles.map Tile.toText).Nodup ∧
    (∀ t, t ∈ tiles ↔ ∃ polygons ∈ shape, t ∈ (g.coverage [polygons]).toList) ∧
    ∀ order, order.Perm shape → ∀ t, t ∈ (g.coverage order).toList ↔ t ∈ tiles := by
  intro found tiles
  have hfound : shape.flatMap (sitesOf g.step) = found :=
    List.flatMap_congr fun polygons _ => sitesOf_eq g.step polygons
  have htiles : (g.coverage shape).toList = tiles := by
    rw [toList_coverage, hfound]
  refine ⟨pairwise_zonesOf, fun n => ?_, htiles, ?_, fun t => ?_, fun order horder t => ?_⟩
  · rw [Producer.ask_eq_getElem?, ← htiles, coverage, Producer.toList_elements]
  · rw [List.map_map]
    exact (nodup_eraseDups found).map g.toText_tileAtSite_injective
  · rw [← htiles, mem_coverage]
    simp only [mem_coverage, List.mem_singleton, exists_eq_left]
  · rw [← htiles, mem_coverage, mem_coverage]
    simp only [horder.mem_iff]

end Grid
end UtmTiles
