import UtmTiles.Proofs.Utm.Equator

/-!
# The cell of a point

In exact arithmetic, the cells of a grid cut the plane of every zone into squares: a point lies in one
cell and no other (`Tile.existsUnique_holds`). The cell holds its western and southern edges only. The
lookup of a position gives the cell of its projection.

A tile takes its hemisphere from its row, and a zone from the latitude. Both are the same on either
side of the equator, for the equator is the southern edge of row 0.
-/

namespace UtmTiles

/-! ## Cells of the plane -/

namespace Tile

/-- The tile's cell holds a point of the plane. -/
def Holds (t : Tile ℝ) (x y : ℝ) : Prop :=
  (t.cell.minX ≤ x ∧ x < t.cell.maxX) ∧ t.cell.minY ≤ y ∧ y < t.cell.maxY

/-- A multiple of a step and the next one enclose the numbers whose quotient it is, rounded down. -/
theorem mem_step_iff {step : ℝ} (hstep : 0 < step) {i : ℤ} {z : ℝ} :
    (i : ℝ) * step ≤ z ∧ z < (i + 1) * step ↔ i = ⌊z / step⌋ := by
  rw [eq_comm, Int.floor_eq_iff, le_div_iff₀ hstep, div_lt_iff₀ hstep]

/-- The cell of a point is found by rounding down its offset from the zone's origin in steps. -/
theorem holds_iff {t : Tile ℝ} (hstep : 0 < t.grid.step) {x y : ℝ} :
    t.Holds x y ↔ t.ti = ⌊(x - Utm.falseEasting) / t.grid.step⌋ ∧ t.tj = ⌊y / t.grid.step⌋ := by
  have hone : (1.0 : ℝ) = 1 := by norm_num
  rw [← mem_step_iff hstep, ← mem_step_iff hstep, le_sub_iff_add_le', sub_lt_iff_lt_add']
  simp only [Holds, cell, Scalar.ofInt_real, hone]

theorem existsUnique_holds {g : Grid ℝ} (hstep : 0 < g.step) (zone : ℕ) (x y : ℝ) :
    ∃! t : Tile ℝ, (t.grid = g ∧ t.zone = zone) ∧ t.Holds x y := by
  refine ⟨⟨g, zone, ⌊(x - Utm.falseEasting) / g.step⌋, ⌊y / g.step⌋⟩, ⟨⟨rfl, rfl⟩, ?_⟩, ?_⟩
  · rw [holds_iff hstep]
    exact ⟨rfl, rfl⟩
  · rintro t ⟨⟨rfl, rfl⟩, hholds⟩
    obtain ⟨hti, htj⟩ := (holds_iff hstep).1 hholds
    exact Tile.ext rfl rfl hti htj

/-! ## Hemispheres -/

theorem row_nonneg_iff {t : Tile ℝ} (hstep : 0 < t.grid.step) {x y : ℝ} (hholds : t.Holds x y) :
    0 ≤ t.tj ↔ 0 ≤ y := by
  obtain ⟨-, hrow⟩ := (holds_iff hstep).1 hholds
  rw [hrow, Int.le_floor, Int.cast_zero, le_div_iff₀ hstep, zero_mul]

/-- A tile is on the same side of the equator as the points of its cell. -/
theorem hemisphere_eq {t : Tile ℝ} (hstep : 0 < t.grid.step) {x y lat : ℝ} (hholds : t.Holds x y)
    (hside : y < 0 ↔ lat < 0) :
    t.hemisphere = if (0.0 : ℝ) ≤ lat then Hemisphere.north else Hemisphere.south := by
  have hzero : (0.0 : ℝ) = 0 := by norm_num
  have hiff : 0 ≤ t.tj ↔ 0 ≤ lat := by
    rw [row_nonneg_iff hstep hholds, ← not_lt, ← not_lt, hside]
  rw [hemisphere, hzero]
  exact if_congr hiff rfl rfl

end Tile

/-! ## Lookup -/

namespace Grid

theorem step_pos {g : Grid ℝ} {resolution : ℝ} {tilesize pad : ℕ}
    (hmake : Grid.make resolution tilesize pad = .ok g) : 0 < g.step := by
  have hresolution := resolution_pos hmake
  obtain ⟨htilesize, -, -, rfl⟩ := make_eq_ok_iff.1 hmake
  have hsize : (0 : ℝ) < tilesize := by exact_mod_cast htilesize
  rw [step_real]
  exact mul_pos hsize hresolution

/-- In exact arithmetic, the tile that is looked up is the one whose cell holds the projection. -/
theorem tileAt_eq_ok_iff_holds {g : Grid ℝ} (hstep : 0 < g.step) {lon lat : ℝ} {t : Tile ℝ} :
    g.tileAt lon lat = .ok t ↔
      (Zone.HasLon lon ∧ Zone.HasLat lat) ∧ (t.grid = g ∧ t.zone = Zone.numberOf lon) ∧
        t.Holds (Utm.project t.zone lon lat).1 (Utm.project t.zone lon lat).2 := by
  rw [tileAt_eq_ok_iff]
  constructor
  · rintro ⟨hlon, -, hlat, rfl⟩
    refine ⟨⟨hlon, hlat⟩, ⟨rfl, rfl⟩, ?_⟩
    rw [Tile.holds_iff hstep]
    exact ⟨rfl, rfl⟩
  · rintro ⟨⟨hlon, hlat⟩, ⟨rfl, hzone⟩, hholds⟩
    obtain ⟨hti, htj⟩ := (Tile.holds_iff hstep).1 hholds
    refine ⟨hlon, rfl, hlat, ?_⟩
    rw [← hzone]
    exact Tile.ext rfl rfl hti htj

/-- In exact arithmetic, the tiles of a grid cut the plane of each zone into cells, and the lookup of
a position gives the tile of its projection in its zone. Where the projection keeps the side of the
equator, as it does off the poles, the tile's coordinate system is that of the zone. -/
theorem tileAt_holds_projection {g : Grid ℝ} {resolution : ℝ} {tilesize pad : ℕ}
    (hmake : Grid.make resolution tilesize pad = .ok g) :
    (∀ (zone : ℕ) (x y : ℝ), ∃! t : Tile ℝ, (t.grid = g ∧ t.zone = zone) ∧ t.Holds x y) ∧
      ∀ lon lat : ℝ,
        ((∃ t, g.tileAt lon lat = .ok t) ↔
          (-180 ≤ lon ∧ lon ≤ 180) ∧ (-90 ≤ lat ∧ lat ≤ 90)) ∧
        ∀ t, g.tileAt lon lat = .ok t → ∃ zone : Zone,
          Zone.ofPosition lon lat = .ok zone ∧ t.grid = g ∧ t.zone = zone.number ∧
          let place := Utm.project zone.number lon lat
          t.Holds place.1 place.2 ∧
          (|lat| < 90 → (place.2 < 0 ↔ lat < 0)) ∧
          ((place.2 < 0 ↔ lat < 0) →
            t.hemisphere = zone.hemisphere ∧ t.epsg = zone.epsg ∧
              t.systemName = Zone.systemName zone.epsg) := by
  have hstep := step_pos hmake
  refine ⟨Tile.existsUnique_holds hstep, fun lon lat => ⟨?_, ?_⟩⟩
  · rw [← Zone.hasLon_real, ← Zone.hasLat_real]
    constructor
    · rintro ⟨t, ht⟩
      exact ((tileAt_eq_ok_iff_holds hstep).1 ht).1
    · rintro ⟨hlon, hlat⟩
      exact ⟨_, tileAt_eq_ok_iff.2 ⟨hlon, rfl, hlat, rfl⟩⟩
  · intro t ht
    obtain ⟨⟨hlon, hlat⟩, ⟨rfl, hzone⟩, hholds⟩ := (tileAt_eq_ok_iff_holds hstep).1 ht
    have hposition := Zone.ofPosition_real hlat lon
    rw [Zone.normalizeLon_of_hasLon hlon] at hposition
    rw [hzone] at hholds
    refine ⟨_, hposition, rfl, hzone, hholds, Utm.northing_neg_iff hlon, ?_⟩
    intro hside
    have hhemisphere := Tile.hemisphere_eq hstep hholds hside
    have hepsg : t.epsg = Zone.epsgCode (Zone.numberOf lon) t.hemisphere := by
      rw [Tile.epsg, hzone]
    rw [hhemisphere] at hepsg
    exact ⟨hhemisphere, hepsg, congrArg Zone.systemName hepsg⟩

/-- A position in the south. -/
theorem tileAt_holds_projection_in_south :
    let g : Grid ℝ := ⟨1, 500, 0⟩
    Grid.make 1 500 0 = .ok g ∧ ∃ t zone, g.tileAt 3 (-45) = .ok t ∧
      Zone.ofPosition (3 : ℝ) (-45) = .ok zone ∧ t.epsg = zone.epsg ∧ t.tj < 0 := by
  intro g
  have hmake : Grid.make 1 500 0 = .ok g :=
    Grid.make_eq_ok_iff.2 ⟨by decide, ⟨rfl, by norm_num⟩, by decide, rfl⟩
  obtain ⟨-, hlookup⟩ := tileAt_holds_projection hmake
  obtain ⟨haccepts, htile⟩ := hlookup 3 (-45)
  obtain ⟨t, ht⟩ := haccepts.2 (by norm_num)
  obtain ⟨zone, hzone, hgrid, -, hholds, hside, hsystem⟩ := htile t ht
  replace hside := hside (by rw [abs_neg]; norm_num)
  refine ⟨hmake, t, zone, ht, hzone, (hsystem hside).2.1, ?_⟩
  have hrow := Tile.row_nonneg_iff (hgrid ▸ step_pos hmake) hholds
  have hsouth := hside.2 (by norm_num)
  rw [← not_le] at hsouth ⊢
  rwa [hrow]

end Grid
end UtmTiles
