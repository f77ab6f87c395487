import UtmTiles.Proofs.Binary64.Quotient
import UtmTiles.Proofs.Coverage.Lookup

/-!
# Indices that fit

Indices have 64 bits, and a grid may have any positive resolution. So an offset in the plane of a zone
can be too many steps long to have an index; it is given the index at the end then, and the cell there
is not its own. Sums and differences of large indices may have too many bits as well; such ranges give
no cells, which is what comes of them where sums wrap around.

None of this happens to offsets of at most `2 ^ 61` steps. The bounds of a walk's range are their
indices then, and they stay as small in all the ranges that the walk visits
(`RangeTests.Visited.isBounded`), because the parts of a range lie between its bounds. So everything
that a visit computes from the bounds has 64 bits (`CellRange.HasIndices`).
-/

namespace UtmTiles

open Binary64

/-! ## Bounds of ranges -/

/-- The number has 64 bits. -/
def IsIndex (n : ℤ) : Prop := minIndex ≤ n ∧ n ≤ maxIndex

namespace CellRange

/-- The bounds of the range are at most so many cells away from the origin. -/
structure IsBounded (bound : ℤ) (r : CellRange) : Prop where
  west : -bound ≤ r.west ∧ r.west ≤ bound
  south : -bound ≤ r.south ∧ r.south ≤ bound
  east : -bound ≤ r.east ∧ r.east ≤ bound
  north : -bound ≤ r.north ∧ r.north ≤ bound

/-- All numbers that a visit computes from the bounds of a range are indices. -/
structure HasIndices (r : CellRange) : Prop where
  width : IsIndex r.width
  height : IsIndex r.height
  columns : IsIndex (r.west + r.east)
  rows : IsIndex (r.south + r.north)
  last : IsIndex (r.east - 1)
  next : ∀ c, r.Holds c → IsIndex (c.ti + 1) ∧ IsIndex (c.tj + 1)

theorem IsBounded.hasIndices {r : CellRange} (h : r.IsBounded (2 ^ 61)) : r.HasIndices := by
  obtain ⟨hwest, hsouth, heast, hnorth⟩ := h
  constructor
  case next =>
    intro c hc
    simp only [IsIndex, minIndex, maxIndex]
    simp only [Holds] at hc
    omega
  all_goals
    simp only [IsIndex, minIndex, maxIndex, width, height]
    omega

/-- The bounds of a part lie between those of the whole. -/
theorem isBounded_of_mem_parts {bound : ℤ} {r p : CellRange} (hp : p ∈ r.parts)
    (h : r.IsBounded bound) : p.IsBounded bound := by
  obtain ⟨hwest, hsouth, heast, hnorth⟩ := h
  have hcolumn : -bound ≤ r.middleTi ∧ r.middleTi ≤ bound := by
    simp only [middleTi]
    omega
  have hrow : -bound ≤ r.middleTj ∧ r.middleTj ≤ bound := by
    simp only [middleTj]
    omega
  unfold parts at hp
  split_ifs at hp <;> simp only [List.mem_cons, List.not_mem_nil, or_false] at hp
  · rcases hp with rfl | rfl <;> constructor <;> assumption
  · rcases hp with rfl | rfl <;> constructor <;> assumption
  · rcases hp with rfl | rfl | rfl | rfl <;> constructor <;> assumption

end CellRange

/-! ## Ranges that a walk visits -/

namespace RangeTests

/-- A walk through `r` can come to visit the range: it is `r` itself, or part of a range that is
divided when it is visited. -/
inductive Visited (t : RangeTests) (r : CellRange) : CellRange → Prop
  | start : Visited t r r
  | part {q p : CellRange} (hq : Visited t r q) (hvisit : t.visit q = .divided) (hp : p ∈ q.parts) :
      Visited t r p

theorem Visited.isBounded {t : RangeTests} {r q : CellRange} {bound : ℤ} (h : t.Visited r q)
    (hr : r.IsBounded bound) : q.IsBounded bound := by
  induction h with
  | start => exact hr
  | part _ _ hp ih => exact CellRange.isBounded_of_mem_parts hp ih

end RangeTests

namespace Walk

variable {t : RangeTests} {r : CellRange}

/-- A visit only leaves ranges to be visited that can be. -/
theorem visited_of_mem_ranges {q : CellRange} {rest : List CellRange}
    (h : ∀ p ∈ q :: rest, t.Visited r p) : ∀ p ∈ (visited t q rest).ranges, t.Visited r p := by
  obtain ⟨hq, hrest⟩ := List.forall_mem_cons.1 h
  unfold visited
  split
  case h_4 hvisit =>
    intro p hp
    rcases List.mem_append.1 hp with hp | hp
    · exact .part hq hvisit hp
    · exact hrest p hp
  all_goals exact hrest

theorem visited_next (w : Walk) (h : ∀ q ∈ w.ranges, t.Visited r q) :
    ∀ q ∈ (next t w).2.ranges, t.Visited r q := by
  fun_induction next t w with
  | case1 => exact h
  | case2 => exact h
  | case3 => exact fun q hq => absurd hq List.not_mem_nil
  | case4 w hchecked q rest hranges haccepted ih => exact ih (visited_of_mem_ranges (hranges ▸ h))

/-- Whenever a walk is stopped, the ranges that it has still to visit can be visited. -/
theorem visited_after (t : RangeTests) (r : CellRange) (n : ℕ) :
    ∀ q ∈ ((producer t).after (start r) n).ranges, t.Visited r q := by
  have hrun : ∀ (n : ℕ) (w : Walk), (∀ q ∈ w.ranges, t.Visited r q) →
      ∀ q ∈ ((producer t).after w n).ranges, t.Visited r q := by
    intro n
    induction n with
    | zero => exact fun w h => h
    | succ n ih => exact fun w h => ih _ (visited_next w h)
  exact hrun n (start r) (List.forall_mem_singleton.2 .start)

end Walk

/-- A walk through a range whose cells cannot be counted gives nothing. -/
theorem ZoneWalk.left_of_not_hasCounts {α : Type} [Elementary α] {area : ZoneArea α}
    {range : CellRange} (h : ¬ ZoneArea.HasCounts range) :
    (ZoneWalk.mk area (Walk.start range)).left = [] := by
  have hreach : area.tests.inReach range = false := by
    simp only [ZoneArea.tests, h, decide_false, Bool.false_and]
  have hvisit : area.tests.visit range = .skipped := by
    simp only [RangeTests.visit, hreach, Bool.not_false, if_true]
  have hfound : area.tests.found [range] = [] := by
    rw [RangeTests.found_cons, hvisit]
    exact RangeTests.found_nil _
  simp only [ZoneWalk.left, Walk.left_start, hfound, List.map_nil]

/-! ## Steps -/

namespace Binary64

/-- The offset is at most `2 ^ 61` steps long. -/
def IsNear (step offset : Float) : Prop :=
  offset.isFinite = true ∧ |value offset| ≤ 2 ^ 61 * value step

theorem HasIndex.bounds {round : ℚ → ℤ} (h : IsDirected round) {offset step : Float} {i : ℤ}
    (hi : HasIndex round offset step i)
    (hstep : (step.isFinite = true ∧ 0 < value step) ∨ step.isInf = true)
    (hnear : IsNear step offset) : -2 ^ 61 ≤ i ∧ i ≤ 2 ^ 61 := by
  rcases hstep with ⟨hfinite, hpos⟩ | hinf
  · refine (hi.isIndexOf hnear.1 hfinite).bounds h ?_
    rw [abs_div, abs_of_pos hpos, div_le_iff₀ hpos]
    exact hnear.2
  · rw [hi.isInf hinf]
    norm_num

end Binary64

namespace Grid

theorem step_pos_or_isInf {g : Grid Float} {resolution : Float} {tilesize pad : ℕ}
    (hmake : Grid.make resolution tilesize pad = .ok g) :
    (g.step.isFinite = true ∧ 0 < value g.step) ∨ g.step.isInf = true := by
  obtain ⟨htilesize, hresolution, hraster, rfl⟩ := make_eq_ok_iff.1 hmake
  change tilesize + 2 * pad ≤ 2 ^ 32 - 1 at hraster
  have hpos : 0 < value resolution := (lt_iff rfl hresolution.1).1 hresolution.2
  rcases isRounded_or_isInf_ofInt_mul hresolution.1 (n := tilesize) (by omega) with hstep | hinf
  · refine Or.inl ⟨hstep.isFinite, ?_⟩
    change 0 < value (Float.ofInt tilesize * resolution)
    rw [hstep.value]
    exact rounded_mul_pos hresolution.1 hpos htilesize
  · exact Or.inr hinf

/-- Every index is that of an offset, of the position that is looked up or of the box in which a walk
looks for cells, or an index at the end if the offset is too many steps long. If the box lies within
`2 ^ 61` steps then whatever a walk computes from the bounds of the ranges that it visits has 64 bits;
if the cells of its range cannot be counted then it gives nothing. -/
theorem indices_of_offsets {g : Grid Float} {resolution : Float} {tilesize pad : ℕ}
    (hmake : Grid.make resolution tilesize pad = .ok g) :
    ((g.step.isFinite = true ∧ 0 < value g.step) ∨ g.step.isInf = true) ∧
    (∀ (lon lat : Float) (t : Tile Float), g.tileAt lon lat = .ok t →
      let place := Utm.project t.zone lon lat
      HasIndex Int.floor (place.1 - Utm.falseEasting) g.step t.ti ∧
        HasIndex Int.floor place.2 g.step t.tj) ∧
    ∀ (polygons : MultiPolygon Float) (zone : ℕ) (w : ZoneWalk Float),
      ZoneWalk.of? polygons zone g.step = some w →
        ∃ box range, MultiPolygon.box? w.area.projected = some box ∧ w.walk = Walk.start range ∧
          let search := w.area.searchBox box
          (HasIndex Int.floor search.minX g.step range.west ∧
            HasIndex Int.floor search.minY g.step range.south ∧
            HasIndex Int.ceil search.maxX g.step range.east ∧
            HasIndex Int.ceil search.maxY g.step range.north) ∧
          (∀ n, ∀ q ∈ ((Walk.producer w.area.tests).after w.walk n).ranges,
            w.area.tests.Visited range q) ∧
          (IsNear g.step search.minX ∧ IsNear g.step search.minY ∧ IsNear g.step search.maxX ∧
              IsNear g.step search.maxY →
            ∀ q, w.area.tests.Visited range q → q.HasIndices) ∧
          (¬ ZoneArea.HasCounts range → w.left = []) := by
  have hstep := step_pos_or_isInf hmake
  have hpos : g.step.isFinite = true → 0 < value g.step := by
    intro hfinite
    rcases hstep with ⟨-, hpos⟩ | hinf
    · exact hpos
    · rw [not_isFinite_of_isInf hinf] at hfinite
      cases hfinite
  have hfloor (offset : Float) :
      HasIndex Int.floor offset g.step (Scalar.floorIndex (offset / g.step)) :=
    hasIndex_div (Or.inl rfl) Parts.floor_eq hpos offset
  have hceil (offset : Float) :
      HasIndex Int.ceil offset g.step (Scalar.ceilIndex (offset / g.step)) :=
    hasIndex_div (Or.inr rfl) Parts.ceil_eq hpos offset
  refine ⟨hstep, ?_, ?_⟩
  · intro lon lat t ht
    obtain ⟨-, -, -, rfl⟩ := tileAt_eq_ok_iff.1 ht
    exact ⟨hfloor _, hfloor _⟩
  · intro polygons zone w hw
    obtain ⟨area, range, harea, hrange, rfl⟩ := Coverage.zoneWalk_eq_some.1 hw
    obtain ⟨box, hbox, rfl⟩ := Option.map_eq_some_iff.1 hrange
    rw [← (Coverage.eq_of_zoneArea harea).2] at hstep hfloor hceil ⊢
    refine ⟨box, _, hbox, rfl, ⟨hfloor _, hfloor _, hceil _, hceil _⟩, Walk.visited_after _ _, ?_,
      ZoneWalk.left_of_not_hasCounts⟩
    rintro ⟨hwest, hsouth, heast, hnorth⟩ q hq
    refine (hq.isBounded ⟨?_, ?_, ?_, ?_⟩).hasIndices
    · exact (hfloor _).bounds (Or.inl rfl) hstep hwest
    · exact (hfloor _).bounds (Or.inl rfl) hstep hsouth
    · exact (hceil _).bounds (Or.inr rfl) hstep heast
    · exact (hceil _).bounds (Or.inr rfl) hstep hnorth

/-- With steps of a tenth of a picometer, 4000 km in the south are too many steps. -/
theorem indices_of_offsets_of_tiny_step :
    let g : Grid Float := ⟨1e-13, 1, 0⟩
    Grid.make 1e-13 1 0 = .ok g ∧ ∃ t, g.tileAt 3.0 (-45.0) = .ok t ∧
      let northing := (Utm.project t.zone 3.0 (-45.0)).2
      (northing.isFinite = true → value northing ≤ -4000000 → t.tj = minIndex) := by
  intro g
  have hmake : Grid.make 1e-13 1 0 = .ok g :=
    make_eq_ok_iff.2 ⟨by decide, ⟨rfl, by decide⟩, by decide, rfl⟩
  have hlon : Zone.HasLon (3.0 : Float) := ⟨by decide, by decide⟩
  have hlat : Zone.HasLat (-45.0 : Float) := ⟨by decide, by decide⟩
  have ht := (tileAt_eq_ok_iff (g := g)).2 ⟨hlon, rfl, hlat, rfl⟩
  obtain ⟨-, hlookup, -⟩ := indices_of_offsets hmake
  refine ⟨hmake, _, ht, ?_⟩
  intro northing hfinite hsouth
  have hstep : g.step.isFinite = true ∧ value g.step = 7922816251426434 * 2 ^ (-96 : ℤ) := by
    change Float.isFinite (Grid.step ⟨1e-13, 1, 0⟩) = true ∧ value (Grid.step ⟨1e-13, 1, 0⟩) = _
    refine ⟨by decide +kernel, ?_⟩
    change exactValue (.finite .positive 7922816251426434 (-96) (by decide)) = _
    norm_num [exactValue, signed]
  refine (((hlookup _ _ _ ht).2.isIndexOf hfinite hstep.1).below ?_).2
  rw [hstep.2, div_lt_iff₀ (by positivity)]
  refine hsouth.trans_lt ?_
  norm_num

end Grid
end UtmTiles
