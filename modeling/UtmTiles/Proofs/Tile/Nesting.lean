import UtmTiles.Proofs.Tile.Pixel
import UtmTiles.Proofs.Tile.Subtiles

/-!
# Lookups in a subdivision

A grid whose step is a fraction of another grid's step has its cells inside of the other's cells:
their indices, divided by the ratio, are the indices of the cells around them. So the cell that a
position has in the finer grid is one of the subtiles of the tile that it has in the coarser one, and
its row and column are what the division leaves over (`Tile.existsUnique_subtile`).
-/

namespace UtmTiles

/-! ## Nested cells -/

namespace Grid

/-- In a grid with a fraction of the step, the cell of a position has indices that, divided by the
ratio, are those of the position's cell. -/
theorem tileAt_of_step_eq {g child : Grid ℝ} {ratio : ℕ} (hstep : g.step = ratio * child.step)
    {lon lat : ℝ} {t : Tile ℝ} (h : g.tileAt lon lat = .ok t) :
    ∃ u, child.tileAt lon lat = .ok u ∧ u.grid = child ∧ u.zone = t.zone ∧
      u.ti / ratio = t.ti ∧ u.tj / ratio = t.tj := by
  obtain ⟨hlon, hfinite, hlat, rfl⟩ := tileAt_eq_ok_iff.1 h
  have hnested (offset : ℝ) : ⌊offset / child.step⌋ / (ratio : ℤ) = ⌊offset / g.step⌋ := by
    rw [hstep, mul_comm, ← div_div, Int.floor_div_natCast]
  exact ⟨_, tileAt_eq_ok_iff.2 ⟨hlon, hfinite, hlat, rfl⟩, rfl, rfl, hnested _, hnested _⟩

end Grid

namespace Tile

/-- In exact arithmetic, the tile that a position has in the grid of a subdivision is one of the
subtiles of the tile that it has in the grid itself, at one place, if the subtiles span the tile. -/
theorem tileAt_mem_subtiles {g : Grid ℝ} {lon lat : ℝ} {t : Tile ℝ}
    (ht : g.tileAt lon lat = .ok t) {ratio : ℕ} {resolution : Option ℝ} {pad : Option ℕ}
    {child : Grid ℝ} (hchild : t.subdividedGrid ratio resolution pad = .ok child)
    (hspan : (ratio * child.tilesize * child.resolution : ℝ) = g.tilesize * g.resolution) :
    ∃ u, child.tileAt lon lat = .ok u ∧
      (∃! k : ℕ, (t.subdivision child ratio).toList[k]? = some u) ∧
      ∀ s, t.subtiles ratio resolution pad = .ok s → s = t.subdivision child ratio := by
  have hratio := ratio_pos_of_subdividedGrid hchild
  have hstep : g.step = ratio * child.step := by
    rw [Grid.step_real, Grid.step_real, ← mul_assoc]
    exact hspan.symm
  obtain ⟨u, hu, rfl, hzone, hti, htj⟩ := Grid.tileAt_of_step_eq hstep ht
  refine ⟨u, hu, existsUnique_subtile hratio hzone hti htj, fun s hs => ?_⟩
  obtain ⟨child, hgrid, -, rfl⟩ := subtiles_eq_ok_iff.1 hs
  rw [Except.ok.inj (hgrid.symm.trans hchild)]

/-- A position south of the equator, and pixels of half the size in quarters of the tile. -/
theorem tileAt_mem_subtiles_south :
    let g : Grid ℝ := ⟨1, 500, 0⟩
    let child : Grid ℝ := ⟨1 / 2, 500, 8⟩
    ∃ t, g.tileAt 3 (-45) = .ok t ∧ t.subdividedGrid 2 (some (1 / 2)) (some 8) = .ok child ∧
      (2 * 500 * (1 / 2) : ℝ) = 500 * 1 ∧
      ∃ u, child.tileAt 3 (-45) = .ok u ∧
        ∃! k : ℕ, (t.subdivision child 2).toList[k]? = some u := by
  intro g child
  have hlon : Zone.HasLon (3 : ℝ) := by
    constructor <;> norm_num [Zone.maxLon]
  have hlat : Zone.HasLat (-45 : ℝ) := by
    constructor <;> norm_num [Zone.maxLat]
  have ht := (Grid.tileAt_eq_ok_iff (g := g)).2 ⟨hlon, rfl, hlat, rfl⟩
  generalize htile : Tile.mk g _ _ _ = t at ht
  have hgrid : t.grid = g := by rw [← htile]
  have hchild : t.subdividedGrid 2 (some (1 / 2)) (some 8) = .ok child := by
    have hpixels : g.step / (Scalar.ofInt (2 : ℕ) * (1 / 2)) = (500 : ℝ) := by
      rw [Grid.step_real, Scalar.ofInt_real]
      norm_num [g]
    have hround : Scalar.round (500 : ℝ) = 500 := by
      have hfloor : ⌊(500 + 1 / 2 : ℝ)⌋ = 500 := by norm_num [Int.floor_eq_iff]
      show (if (0 : ℝ) ≤ 500 then (⌊(500 + 1 / 2 : ℝ)⌋ : ℝ) else _) = 500
      rw [if_pos (by norm_num), hfloor]
      norm_num
    have hwhole : Scalar.pixels (500 : ℝ) = 500 := Nat.floor_ofNat 500
    unfold subdividedGrid
    rw [hgrid, if_neg (by decide)]
    simp only [Option.getD_some, hpixels, hround, hwhole]
    rw [if_neg (not_not.2 ⟨rfl, by norm_num⟩), if_neg (by norm_num [tolerance, Scalar.abs])]
    exact Grid.make_eq_ok_iff.2 ⟨by decide, ⟨rfl, by norm_num⟩, by decide, rfl⟩
  obtain ⟨u, hu, hplace, -⟩ :=
    tileAt_mem_subtiles ht hchild (by norm_num [g, child])
  exact ⟨t, ht, hchild, by norm_num, u, hu, hplace⟩

end Tile
end UtmTiles
