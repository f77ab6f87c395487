import UtmTiles.Proofs.Tile.Pixel
import UtmTiles.Tile.Record
import Mathlib.Tactic.Ring

/-!
# The geometry of a raster

The box of a raster is computed in meters, from the cell of its tile: it is widened by the padding
and moved north to the tile's coordinate system. The center of a pixel is computed in pixels that are
counted from the central meridian and the equator. In exact arithmetic the two ways meet
(`Tile.bounds_real`), so that box, geotransform and pixel centers of a tile describe one raster.
-/

namespace UtmTiles
namespace Tile

theorem falseNorthing_real (t : Tile ℝ) :
    t.falseNorthing = if t.hemisphere = .south then 10000000 else 0 := by
  unfold falseNorthing
  cases t.hemisphere with
  | north => rw [if_neg (by decide)]; norm_num
  | south => norm_num [Utm.southNorthing]

/-- The box of a raster spans its pixels, from its first column and down from its top row. -/
theorem bounds_real (t : Tile ℝ) :
    let left := 500000 + t.minCol * t.grid.resolution
    let top := t.maxRow * t.grid.resolution + t.falseNorthing
    let width := t.grid.rasterSize * t.grid.resolution
    t.bounds = { minX := left, minY := top - width, maxX := left + width, maxY := top } := by
  intro left top width
  have hcell : t.cell =
      { minX := 500000 + t.ti * (t.grid.tilesize * t.grid.resolution)
        minY := t.tj * (t.grid.tilesize * t.grid.resolution)
        maxX := 500000 + (t.ti + 1) * (t.grid.tilesize * t.grid.resolution)
        maxY := (t.tj + 1) * (t.grid.tilesize * t.grid.resolution) } := by
    simp only [cell, Grid.step_real, Scalar.ofInt_real, Utm.falseEasting_real]
    norm_num
  have hpad : t.grid.meters t.grid.pad = t.grid.pad * t.grid.resolution := rfl
  have hwidth : width = (t.grid.tilesize + 2 * t.grid.pad) * t.grid.resolution := by
    simp only [width, Grid.rasterSize, Nat.cast_add, Nat.cast_mul, Nat.cast_ofNat]
  simp only [bounds, utmBounds, Box.buffered, Box.shiftedNorth, hcell, hpad, hwidth, left, top,
    minCol_real, maxRow_real, Box.mk.injEq]
  refine ⟨?_, ?_, ?_, ?_⟩ <;> ring

theorem pixelCenter_real (t : Tile ℝ) (row col : ℝ) :
    t.pixelCenter row col =
      { x := 500000 + t.minCol * t.grid.resolution + (col + 1 / 2) * t.grid.resolution
        y := t.maxRow * t.grid.resolution - (row + 1 / 2) * t.grid.resolution } := by
  have hhalf : (0.5 : ℝ) = 1 / 2 := by norm_num
  simp only [pixelCenter, hhalf, Utm.falseEasting_real, Point.mk.injEq]
  constructor <;> ring

/-- In exact arithmetic, every pixel has a position. -/
theorem positionOf_real (t : Tile ℝ) (row col : ℝ) :
    let place := Utm.unproject t.zone (t.pixelCenter row col).x (t.pixelCenter row col).y
    t.positionOf row col = .ok ⟨place.1, place.2⟩ :=
  positionOf_eq_ok_iff.2 ⟨⟨rfl, rfl⟩, ⟨rfl, rfl⟩, rfl⟩

/-- In exact arithmetic, every position on the globe has a pixel. -/
theorem pixelOf_real (t : Tile ℝ) (lon lat : ℝ) :
    let pixel := t.pixelAt (Utm.project t.zone lon lat).1 (Utm.project t.zone lon lat).2
    t.pixelOf lon lat = if Zone.HasLat lat then .ok (⌊pixel.1⌋, ⌊pixel.2⌋)
      else .error (.position (.latitudeOutside lat)) := by
  intro pixel
  split
  · next hlat => exact (pixelOf_eq_ok_iff rfl).2 ⟨rfl, hlat, ⟨rfl, rfl⟩, rfl, rfl⟩
  · next hlat =>
    unfold pixelOf
    rw [if_neg (by simp), if_pos hlat]

@[simp] theorem length_geotransform {α : Type} [Elementary α] (t : Tile α) :
    t.geotransform.length = 6 := rfl

/-- In exact arithmetic, the center of a pixel that is turned into a position is where the
geotransform puts it, in northings of the tile's coordinate system. The bounds are the box that the
geotransform gives to the whole raster. The record of a tile has these bounds, this geotransform and
this size. -/
theorem raster_geometry (t : Tile ℝ) (row col : ℝ) :
    let left : ℝ := t.geotransform[0]
    let top : ℝ := t.geotransform[3]
    let pixelWidth : ℝ := t.geotransform[1]
    let pixelHeight : ℝ := t.geotransform[5]
    let size : ℝ := t.grid.tilesize + 2 * t.grid.pad
    let center := t.pixelCenter row col
    (∃ p, t.positionOf row col = .ok p ∧ Utm.unproject t.zone center.x center.y = (p.x, p.y)) ∧
      center.x = left + (col + 1 / 2) * pixelWidth ∧
      center.y + (if t.hemisphere = .south then 10000000 else 0) =
        top + (row + 1 / 2) * pixelHeight ∧
      t.bounds.toList =
        [left, top - size * t.grid.resolution, left + size * t.grid.resolution, top] ∧
      ∀ u : Tile Float, u.record.bounds = u.bounds ∧ u.record.geotransform = u.geotransform ∧
        u.record.resolution = u.grid.resolution ∧
        u.record.size = (u.grid.tilesize + 2 * u.grid.pad, u.grid.tilesize + 2 * u.grid.pad) := by
  intro left top pixelWidth pixelHeight size center
  have hbox := t.bounds_real
  have hleft : left = 500000 + t.minCol * t.grid.resolution := congrArg Box.minX hbox
  have htop : top = t.maxRow * t.grid.resolution + t.falseNorthing := congrArg Box.maxY hbox
  have hwidth : size = t.grid.rasterSize := by
    simp only [size, Grid.rasterSize, Nat.cast_add, Nat.cast_mul, Nat.cast_ofNat]
  have hcenter : center = _ := t.pixelCenter_real row col
  refine ⟨⟨⟨_, _⟩, positionOf_eq_ok_iff.2 ⟨⟨rfl, rfl⟩, ⟨rfl, rfl⟩, rfl⟩, rfl⟩, ?_, ?_, ?_,
    fun u => ⟨rfl, rfl, rfl, rfl⟩⟩
  · rw [hcenter, hleft]
    rfl
  · rw [hcenter, htop, falseNorthing_real, show pixelHeight = -t.grid.resolution from rfl]
    ring
  · rw [hbox, hwidth, hleft, htop]
    rfl

end Tile
end UtmTiles
