import UtmTiles.Proofs.Tile.Raster
import UtmTiles.Proofs.Utm.Origin

/-!
# The pixel of a pixel's center

The pixel of a position is found by undoing, in reverse order, the steps that give a pixel its
position, except that a projection undoes its way back only nearly. A pixel reaches half a resolution
from its center to each side. So in exact arithmetic a pixel is found again wherever the projection
errs by less than that, in the raster and outside of it (`Tile.pixelOf_positionOf`).
-/

namespace UtmTiles
namespace Tile

section Center

variable {t : Tile ℝ}

/-- Where a point is in the raster, by how far it is from a pixel's center. -/
theorem pixelAt_eq_center (hresolution : 0 < t.grid.resolution) (row col : ℝ) (p : Point ℝ) :
    t.pixelAt p.x p.y =
      (row + (1 / 2 - (p.y - (t.pixelCenter row col).y) / t.grid.resolution),
       col + (1 / 2 + (p.x - (t.pixelCenter row col).x) / t.grid.resolution)) := by
  rw [pixelCenter_real, pixelAt_real, maxRow_real, minCol_real, Prod.mk.injEq]
  constructor
  · field_simp
    ring
  · field_simp
    ring

theorem abs_div_lt_half {resolution distance : ℝ} (hresolution : 0 < resolution)
    (hdistance : |distance| < resolution / 2) : |distance / resolution| < 1 / 2 := by
  rw [abs_div, abs_of_pos hresolution, div_lt_iff₀ hresolution]
  linarith

/-- A point that is closer to a pixel's center than half a resolution is in the pixel. -/
theorem floor_pixelAt (hresolution : 0 < t.grid.resolution) {row col : ℤ} {p : Point ℝ}
    (hx : |p.x - (t.pixelCenter row col).x| < t.grid.resolution / 2)
    (hy : |p.y - (t.pixelCenter row col).y| < t.grid.resolution / 2) :
    ⌊(t.pixelAt p.x p.y).1⌋ = row ∧ ⌊(t.pixelAt p.x p.y).2⌋ = col := by
  obtain ⟨hright, hleft⟩ := abs_lt.1 (abs_div_lt_half hresolution hx)
  obtain ⟨hbelow, habove⟩ := abs_lt.1 (abs_div_lt_half hresolution hy)
  rw [pixelAt_eq_center hresolution row col p]
  constructor
  · apply Int.floor_eq_iff.2
    constructor <;> linarith
  · apply Int.floor_eq_iff.2
    constructor <;> linarith

end Center

/-- In exact arithmetic, a pixel is the pixel of its position, if the projection brings its center
back with an error of less than half a resolution in each direction. -/
theorem pixelOf_positionOf {t : Tile ℝ} {resolution : ℝ} {tilesize pad : ℕ}
    (hmake : Grid.make resolution tilesize pad = .ok t.grid) (row col : ℤ)
    (hx : |(Utm.returned t.zone (t.pixelCenter row col)).x - (t.pixelCenter row col).x|
      < t.grid.resolution / 2)
    (hy : |(Utm.returned t.zone (t.pixelCenter row col)).y - (t.pixelCenter row col).y|
      < t.grid.resolution / 2) :
    ∃ p, t.positionOf row col = .ok p ∧ t.pixelOf p.x p.y = .ok (row, col) := by
  have hresolution := Grid.resolution_pos hmake
  obtain ⟨hrow, hcol⟩ := floor_pixelAt hresolution hx hy
  refine ⟨_, positionOf_real t row col, ?_⟩
  -- the position is on the globe, so that it has a pixel
  rw [pixelOf_real, if_pos (Utm.hasLat_unproject _ _ _)]
  exact congrArg Except.ok (Prod.ext hrow hcol)

/-- The pixel north-east of a zone's origin is found again, counted from the tile south-west of it,
outside of that tile's raster. -/
theorem pixelOf_positionOf_near_origin :
    let t : Tile ℝ := ⟨⟨1, 500, 0⟩, 31, -1, -1⟩
    let center := t.pixelCenter (-1) 500
    Grid.make 1 500 0 = .ok t.grid ∧ t.hemisphere = .south ∧ t.grid.rasterSize = 500 ∧
      |(Utm.returned t.zone center).x - center.x| < t.grid.resolution / 2 ∧
      |(Utm.returned t.zone center).y - center.y| < t.grid.resolution / 2 ∧
      ∃ p, t.positionOf (-1) 500 = .ok p ∧ t.pixelOf p.x p.y = .ok (-1, 500) := by
  intro t center
  have hmake : Grid.make 1 500 0 = .ok t.grid :=
    Grid.make_eq_ok_iff.2 ⟨by decide, ⟨rfl, by norm_num⟩, by decide, rfl⟩
  have hx : center.x = 500000 + t.grid.resolution / 2 := by
    simp only [center, pixelCenter_real, minCol_real]
    norm_num [t]
  have hy : center.y = t.grid.resolution / 2 := by
    simp only [center, pixelCenter_real, maxRow_real]
    norm_num [t]
  have hhalf : 0 < t.grid.resolution / 2 ∧ t.grid.resolution / 2 ≤ 60000 := by
    norm_num [t]
  have hzone : 1 ≤ t.zone ∧ t.zone ≤ 60 := by decide
  obtain ⟨heast, hnorth⟩ := Utm.returned_near_origin hzone (p := center)
    ⟨by linarith, by linarith⟩ ⟨by linarith, by linarith⟩
  rw [hy] at hnorth
  replace heast : |(Utm.returned t.zone center).x - center.x| < t.grid.resolution / 2 := by linarith
  have hcenter : t.pixelCenter ((-1 : ℤ) : ℝ) ((500 : ℤ) : ℝ) = center := by
    simp [center]
  obtain ⟨p, hp, hpixel⟩ := pixelOf_positionOf hmake (-1) 500
    (by rwa [hcenter]) (by rwa [hcenter, hy])
  refine ⟨hmake, rfl, rfl, heast, by rwa [hy], p, ?_, hpixel⟩
  simpa using hp

end Tile
end UtmTiles
