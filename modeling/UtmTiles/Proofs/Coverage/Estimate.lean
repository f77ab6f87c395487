import UtmTiles.Coverage.Shape
import UtmTiles.Proofs.Binary64.Count
import UtmTiles.Proofs.Shape.Leaves

/-!
# Estimates of several shapes

The estimate for some polygons is the number of tiles that their area holds (`estimateOf_eq`), so it
is small enough for a count of 64 bits. The sum of such counts need not be. As each addition is
checked, what comes of it is the exact sum or nothing (`estimate?_eq`).

So the estimates of several shapes add up to that of the shapes taken together exactly if their sum
is below `2 ^ 64`, and otherwise the shapes taken together have no estimate
(`Grid.estimates_add_up_iff`). The sum is below that for tiles of a meter or more and areas that are
not absurd. It never is for two shapes with an area and tiles so small that their own area is rounded
to zero.
-/

namespace UtmTiles

open Binary64

/-! ## Sums of counts -/

namespace Coverage

/-- Adding up with a check at each step is adding up with one check at the end. -/
theorem foldlM_addCounts? {m : ℕ} (hm : m < 2 ^ 64) (counts : List ℕ) :
    counts.foldlM addCounts? m =
      if m + counts.sum < 2 ^ 64 then some (m + counts.sum) else none := by
  induction counts generalizing m with
  | nil =>
    rw [List.foldlM_nil, List.sum_nil, Nat.add_zero, if_pos hm]
    rfl
  | cons n rest ih =>
    rw [List.foldlM_cons, List.sum_cons, ← Nat.add_assoc, addCounts?]
    by_cases hn : m + n < UInt64.size
    · rw [if_pos hn]
      exact ih hn
    · have hlarge : ¬ m + n + rest.sum < 2 ^ 64 :=
        fun hsum => hn ((Nat.le_add_right _ _).trans_lt hsum)
      rw [if_neg hn, if_neg hlarge]
      rfl

section Totals

variable {α : Type} [Elementary α] (step : α)

/-- The exact sum of the estimates for some multipolygons. -/
def total (parts : List (MultiPolygon α)) : ℕ := (parts.map (estimateOf step)).sum

theorem total_flatten (found : List (List (MultiPolygon α))) :
    total step found.flatten = (found.map (total step)).sum := by
  rw [total, List.map_flatten, List.sum_flatten, List.map_map]
  rfl

theorem estimate?_eq (parts : List (MultiPolygon α)) :
    estimate? step parts = if total step parts < 2 ^ 64 then some (total step parts) else none := by
  have hsum := foldlM_addCounts? (Nat.two_pow_pos 64) (parts.map (estimateOf step))
  rwa [Nat.zero_add] at hsum

theorem estimate?_eq_none_iff {parts : List (MultiPolygon α)} :
    estimate? step parts = none ↔ 2 ^ 64 ≤ total step parts := by
  rw [estimate?_eq, ite_eq_right_iff, ← not_lt]
  simp only [reduceCtorEq, imp_false]

end Totals

/-- What comes of a checked sum. -/
def checkedSum (n : ℕ) : Result (Error Float) ℕ := if n < 2 ^ 64 then .ok n else .overflow

theorem checkedSum_eq_ok_iff {m n : ℕ} : checkedSum n = .ok m ↔ n < 2 ^ 64 ∧ n = m := by
  unfold checkedSum
  split_ifs with h
  · rw [Result.ok.injEq, and_iff_right h]
  · exact ⟨nofun, fun hn => absurd hn.1 h⟩

theorem checkedSum_of_le {n : ℕ} (h : 2 ^ 64 ≤ n) : checkedSum n = .overflow := if_neg h.not_gt

theorem eq_of_map_checkedSum {totals counts : List ℕ}
    (h : totals.map checkedSum = counts.map .ok) : totals = counts := by
  induction totals generalizing counts with
  | nil => exact (List.map_eq_nil_iff.1 h.symm).symm
  | cons n rest ih =>
    obtain ⟨m, others, rfl, hm, hrest⟩ := List.map_eq_cons_iff.1 h.symm
    rw [(checkedSum_eq_ok_iff.1 hm.symm).2, ih hrest.symm]

end Coverage

/-! ## Areas -/

namespace Coverage

variable {step : Float} {polygons : MultiPolygon Float} {parts : List (MultiPolygon Float)}

/-- The area of some polygons in square meters; `none` if they have no points. -/
def squareMeters? (polygons : MultiPolygon Float) : Option Float :=
  (MultiPolygon.centroidY? polygons).map fun lat =>
    MultiPolygon.area polygons * (squareDegree * Elementary.cos (Elementary.toRadians lat))

/-- The areas of several multipolygons that have points. -/
def areas (parts : List (MultiPolygon Float)) : List Float := parts.filterMap squareMeters?

theorem estimateOf_eq_elim : estimateOf step polygons =
    (squareMeters? polygons).elim 0 fun area => Scalar.floorCount (area / (step * step)) := by
  unfold estimateOf squareMeters?
  cases MultiPolygon.centroidY? polygons <;> rfl

/-- The estimate for some polygons is the number of tiles that their area holds. -/
theorem estimateOf_eq {area : Float} (h : squareMeters? polygons = some area)
    (harea : area.isFinite = true) (hstep : step.isFinite = true) (hpos : 0 < value step) :
    estimateOf step polygons = squaresIn (value area) (value step) := by
  rw [estimateOf_eq_elim, h]
  exact floorCount_div_square harea hstep hpos

theorem estimateOf_le {area : Float} (h : squareMeters? polygons = some area)
    (harea : area.isFinite = true) (hstep : 1 ≤ value step) :
    (estimateOf step polygons : ℚ) ≤ max 0 (value area) := by
  have hpos : 0 < value step := one_pos.trans_le hstep
  rw [estimateOf_eq h harea (isFinite_of_value_pos hpos) hpos]
  exact squaresIn_le hstep (rounded_value harea)

/-- Tiles of a meter or more are at most as many as there are square meters. -/
theorem total_le (hstep : 1 ≤ value step)
    (hfinite : ∀ area ∈ areas parts, area.isFinite = true) :
    (total step parts : ℚ) ≤ ((areas parts).map fun area => max 0 (value area)).sum := by
  induction parts with
  | nil => exact le_rfl
  | cons polygons rest ih =>
    rw [total, List.map_cons, List.sum_cons, Nat.cast_add]
    rw [areas, List.filterMap_cons] at hfinite ⊢
    cases h : squareMeters? polygons with
    | none =>
      rw [h] at hfinite
      rw [estimateOf_eq_elim, h, Option.elim_none, Nat.cast_zero, zero_add]
      exact ih hfinite
    | some area =>
      rw [h, List.forall_mem_cons] at hfinite
      rw [List.map_cons, List.sum_cons]
      exact add_le_add (estimateOf_le h hfinite.1 hstep) (ih hfinite.2)

end Coverage

/-! ## Shapes -/

/-- The shape is one multipolygon, and its area is positive. -/
def Shape.HasArea (shape : Shape) : Prop :=
  ∃ polygons area, shape.normalize = .ok [polygons] ∧
    Coverage.squareMeters? polygons = some area ∧ 0 < value area

namespace Grid

variable {g : Grid Float} {shape : Shape} {parts : List (MultiPolygon Float)}

theorem estimateOfShape_of_normalize (h : shape.normalize = .ok parts) :
    g.estimateOfShape shape = .ofOption (g.estimate? parts) := by
  rw [estimateOfShape, h]
  rfl

theorem tilesOfShape_of_normalize (h : shape.normalize = .ok parts) :
    g.tilesOfShape shape = .ofOption ((g.estimate? parts).map fun _ => g.coverage parts) := by
  rw [tilesOfShape, h]
  show (Result.ofOption (g.estimate? parts) >>= fun _ => pure (g.coverage parts)) = _
  cases g.estimate? parts <;> rfl

/-- A shape has a coverage if it comes down to polygons on the globe and has an estimate. -/
theorem tilesOfShape_eq_ok_iff {tiles : Sequence (Tile Float)} :
    g.tilesOfShape shape = .ok tiles ↔ ∃ parts n, shape.normalize = .ok parts ∧
      g.estimate? parts = some n ∧ g.coverage parts = tiles := by
  simp only [tilesOfShape, Result.bind_eq_ok_iff, Result.ofExcept_eq_ok_iff,
    Result.ofOption_eq_ok_iff]
  constructor
  · rintro ⟨parts, hparts, n, hn, h⟩
    cases h
    exact ⟨parts, n, hparts, hn, rfl⟩
  · rintro ⟨parts, n, hparts, hn, rfl⟩
    exact ⟨parts, hparts, n, hn, rfl⟩

/-- A single multipolygon always has an estimate. -/
theorem estimate?_singleton (polygons : MultiPolygon Float) :
    g.estimate? [polygons] = some (Coverage.estimateOf g.step polygons) := by
  have hle : Coverage.estimateOf g.step polygons ≤ maxCount := by
    unfold Coverage.estimateOf
    cases MultiPolygon.centroidY? polygons with
    | none => exact Nat.zero_le _
    | some lat => exact floorCount_le _
  have htotal : Coverage.total g.step [polygons] = Coverage.estimateOf g.step polygons :=
    List.sum_singleton
  rw [estimate?, Coverage.estimate?_eq, htotal, if_pos (hle.trans_lt (by decide))]

/-! ## Shapes taken together -/

theorem estimateOfShape_eq_checkedSum (h : shape.normalize = .ok parts) :
    g.estimateOfShape shape = Coverage.checkedSum (Coverage.total g.step parts) := by
  rw [estimateOfShape_of_normalize h, estimate?, Coverage.estimate?_eq, Coverage.checkedSum]
  split_ifs <;> rfl

/-- If the square of the step is rounded to zero then any area holds all tiles that can be counted. -/
theorem total_of_tiny (hshape : shape.HasArea) (h : shape.normalize = .ok parts)
    (hpos : 0 < value g.step) (htiny : rounded (value g.step * value g.step) = 0) :
    Coverage.total g.step parts = maxCount := by
  obtain ⟨polygons, area, hnormalize, harea, hareaPos⟩ := hshape
  rw [hnormalize] at h
  cases h
  rw [Coverage.total, List.map_singleton, List.sum_singleton, Coverage.estimateOf_eq harea
    (isFinite_of_value_pos hareaPos) (isFinite_of_value_pos hpos) hpos]
  exact squaresIn_of_tiny htiny hareaPos

theorem estimateOfShape_of_tiny (hshape : shape.HasArea) (hpos : 0 < value g.step)
    (htiny : rounded (value g.step * value g.step) = 0) :
    g.estimateOfShape shape = .ok maxCount := by
  obtain ⟨polygons, -, hnormalize, -⟩ := id hshape
  rw [estimateOfShape_eq_checkedSum hnormalize, total_of_tiny hshape hnormalize hpos htiny]
  exact if_pos (by decide)

section Several

variable {shapes : List Shape} {found : List (List (MultiPolygon Float))}
  (hfound : shapes.map Shape.normalize = found.map .ok)

include hfound

theorem map_estimateOfShape : shapes.map g.estimateOfShape =
    (found.map (Coverage.total g.step)).map Coverage.checkedSum := by
  induction shapes generalizing found with
  | nil =>
    rw [List.map_eq_nil_iff.1 hfound.symm]
    rfl
  | cons shape rest ih =>
    obtain ⟨parts, others, rfl, hparts, hothers⟩ := List.map_eq_cons_iff.1 hfound.symm
    rw [List.map_cons, ih hothers.symm, estimateOfShape_eq_checkedSum hparts.symm]
    rfl

/-- The estimate for shapes taken together, from those for the single shapes. -/
theorem estimateOfShape_collection : g.estimateOfShape (.collection shapes) =
    Coverage.checkedSum (found.map (Coverage.total g.step)).sum := by
  rw [estimateOfShape_eq_checkedSum (Shape.normalize_collection hfound), Coverage.total_flatten]

/-- One shape more adds its estimate to that for shapes taken together. -/
theorem estimateOfShape_collection_append {s : Shape} {n k : ℕ}
    (hn : g.estimateOfShape (.collection shapes) = .ok n) (hk : g.estimateOfShape s = .ok k) :
    g.estimateOfShape (.collection (shapes ++ [s])) = Coverage.checkedSum (n + k) := by
  obtain ⟨parts, hparts, -⟩ := Result.bind_eq_ok_iff.1 hk
  replace hparts := Result.ofExcept_eq_ok_iff.1 hparts
  have hmore : (shapes ++ [s]).map Shape.normalize = (found ++ [parts]).map .ok := by
    rw [List.map_append, List.map_append, hfound, List.map_singleton, List.map_singleton, hparts]
  rw [estimateOfShape_collection hfound, Coverage.checkedSum_eq_ok_iff] at hn
  rw [estimateOfShape_eq_checkedSum hparts, Coverage.checkedSum_eq_ok_iff] at hk
  rw [estimateOfShape_collection hmore, List.map_append, List.sum_append, hn.2,
    List.map_singleton, List.sum_singleton, hk.2]

theorem le_sum_of_tiny {s t : Shape} (hsub : [s, t].Sublist shapes) (hs : s.HasArea)
    (ht : t.HasArea) (hpos : 0 < value g.step)
    (htiny : rounded (value g.step * value g.step) = 0) :
    2 ^ 64 ≤ (found.map (Coverage.total g.step)).sum := by
  have hpair := hsub.map Shape.normalize
  rw [hfound] at hpair
  obtain ⟨pair, hpair, heq⟩ := List.sublist_map_iff.1 hpair
  obtain ⟨p, rest, rfl, hp, hrest⟩ := List.map_eq_cons_iff.1 heq.symm
  obtain ⟨q, others, rfl, hq, hnil⟩ := List.map_eq_cons_iff.1 hrest
  rw [List.map_eq_nil_iff.1 hnil] at hpair
  have htotals : [p, q].map (Coverage.total g.step) = [maxCount, maxCount] := by
    rw [List.map_cons, List.map_singleton, total_of_tiny hs hp.symm hpos htiny,
      total_of_tiny ht hq.symm hpos htiny]
  calc 2 ^ 64 ≤ [maxCount, maxCount].sum := by decide
    _ = ([p, q].map (Coverage.total g.step)).sum := by rw [htotals]
    _ ≤ (found.map (Coverage.total g.step)).sum :=
      (hpair.map _).sum_le_sum fun _ _ => Nat.zero_le _

end Several

/-- Shapes that come down to polygons on the globe have a common estimate if the exact sum of their
estimates is below `2 ^ 64`, and then it is this sum. Otherwise adding up overflows. So the estimates
of the single shapes add up exactly if their sum is below `2 ^ 64`, and one shape more adds its own
estimate or overflows. There is no overflow for a step of a meter or more if the shapes have less than
`2 ^ 64` square meters together. There always is one if the square of the step is rounded to zero and
two of the shapes have an area, though each of these has an estimate of its own. -/
theorem estimates_add_up_iff (g : Grid Float) (shapes : List Shape)
    (h : ∀ s ∈ shapes, ∃ parts, s.normalize = .ok parts) :
    ∃ found : List (List (MultiPolygon Float)),
      shapes.map Shape.normalize = found.map .ok ∧
      (Shape.collection shapes).normalize = .ok found.flatten ∧
      let totals := found.map (Coverage.total g.step)
      shapes.map g.estimateOfShape = totals.map Coverage.checkedSum ∧
      g.estimateOfShape (.collection shapes) = Coverage.checkedSum totals.sum ∧
      (∀ counts : List ℕ, shapes.map g.estimateOfShape = counts.map .ok →
        (g.estimateOfShape (.collection shapes) = .ok counts.sum ↔ counts.sum < 2 ^ 64)) ∧
      (∀ n, g.estimateOfShape (.collection shapes) = .ok n →
        ∃ counts : List ℕ, shapes.map g.estimateOfShape = counts.map .ok ∧ counts.sum = n) ∧
      (∀ s n k, g.estimateOfShape (.collection shapes) = .ok n → g.estimateOfShape s = .ok k →
        g.estimateOfShape (.collection (shapes ++ [s])) = Coverage.checkedSum (n + k)) ∧
      (1 ≤ value g.step → (∀ area ∈ Coverage.areas found.flatten, area.isFinite = true) →
        ((Coverage.areas found.flatten).map fun area => max 0 (value area)).sum < 2 ^ 64 →
          g.estimateOfShape (.collection shapes) = .ok totals.sum) ∧
      (0 < value g.step → rounded (value g.step * value g.step) = 0 →
        ∀ s t, [s, t].Sublist shapes → s.HasArea → t.HasArea →
          g.estimateOfShape s = .ok maxCount ∧ g.estimateOfShape t = .ok maxCount ∧
            g.estimateOfShape (.collection shapes) = .overflow) := by
  obtain ⟨found, hfound⟩ := exists_mapM_ok_iff.2 h
  replace hfound := mapM_eq_ok_iff.1 hfound
  have hsingle := map_estimateOfShape (g := g) hfound
  have htogether := estimateOfShape_collection (g := g) hfound
  refine ⟨found, hfound, Shape.normalize_collection hfound, hsingle, htogether, ?_, ?_, ?_, ?_, ?_⟩
  · intro counts hcounts
    rw [htogether, Coverage.eq_of_map_checkedSum (hsingle.symm.trans hcounts),
      Coverage.checkedSum_eq_ok_iff]
    exact and_iff_left rfl
  · intro n hn
    rw [htogether, Coverage.checkedSum_eq_ok_iff] at hn
    refine ⟨_, hsingle.trans (List.map_congr_left fun total hmem => ?_), hn.2⟩
    exact if_pos ((List.le_sum_of_mem hmem).trans_lt hn.1)
  · intro s n k hn hk
    exact estimateOfShape_collection_append hfound hn hk
  · intro hstep hfinite hsmall
    have hsum := (Coverage.total_le hstep hfinite).trans_lt hsmall
    rw [htogether, ← Coverage.total_flatten, Coverage.checkedSum_eq_ok_iff]
    exact ⟨by exact_mod_cast hsum, rfl⟩
  · intro hpos htiny s t hsub hs ht
    refine ⟨estimateOfShape_of_tiny hs hpos htiny, estimateOfShape_of_tiny ht hpos htiny, ?_⟩
    rw [htogether]
    exact Coverage.checkedSum_of_le (le_sum_of_tiny hfound hsub hs ht hpos htiny)

/-- Two rectangles and tiles of less than a tenth of a millimeter. -/
theorem estimates_add_up_iff_of_rectangles :
    let g : Grid Float := ⟨0.00006, 1, 0⟩
    let shapes : List Shape := [.figure (.rectangle ⟨-1.0, -1.0⟩ ⟨1.0, 1.0⟩),
      .figure (.rectangle ⟨10.0, -1.0⟩ ⟨12.0, 1.0⟩)]
    (∀ s ∈ shapes, ∃ parts, s.normalize = .ok parts) ∧
      ∃ m n, shapes.map g.estimateOfShape = [.ok m, .ok n] ∧
        g.estimateOfShape (.collection shapes) = Coverage.checkedSum (m + n) ∧
        (g.estimateOfShape (.collection shapes) = .ok (m + n) ↔ m + n < 2 ^ 64) := by
  intro g shapes
  have hlength : ∀ s ∈ shapes, s.normalize.toOption.map List.length = some 1 := by decide +kernel
  have hone : ∀ s ∈ shapes, ∃ polygons, s.normalize = .ok [polygons] := fun s hs => by
    obtain ⟨parts, hparts, hlength⟩ := Option.map_eq_some_iff.1 (hlength s hs)
    obtain ⟨polygons, rfl⟩ := List.length_eq_one_iff.1 hlength
    exact ⟨polygons, eq_ok_of_toOption hparts⟩
  have h : ∀ s ∈ shapes, ∃ parts, s.normalize = .ok parts :=
    fun s hs => (hone s hs).elim fun polygons hpolygons => ⟨[polygons], hpolygons⟩
  have hestimate : ∀ s ∈ shapes, ∃ n, g.estimateOfShape s = .ok n := fun s hs => by
    obtain ⟨polygons, hpolygons⟩ := hone s hs
    rw [estimateOfShape_of_normalize hpolygons, estimate?_singleton]
    exact ⟨_, rfl⟩
  obtain ⟨⟨m, hm⟩, hsecond⟩ := List.forall_mem_cons.1 hestimate
  obtain ⟨n, hn⟩ := List.forall_mem_singleton.1 hsecond
  have hcounts : shapes.map g.estimateOfShape = [m, n].map .ok := by
    rw [List.map_cons, List.map_singleton, hm, hn]
    rfl
  obtain ⟨found, -, -, hsingle, htogether, hsum, -⟩ := estimates_add_up_iff g shapes h
  rw [Coverage.eq_of_map_checkedSum (hsingle.symm.trans hcounts)] at htogether
  exact ⟨h, m, n, hcounts, htogether, hsum [m, n] hcounts⟩

end Grid
end UtmTiles
