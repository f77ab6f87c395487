import UtmTiles.Tile.Pixel
import Mathlib.Logic.Basic

/-!
# Grids, tiles and pixels that there are

A grid is made of the numbers that make sense, and of them only. A tile is looked up for the
positions on the globe, and a pixel for those that have a place in the plane of its tile. The position
of a pixel is that of its center.
-/

namespace UtmTiles
namespace Grid

theorem make_eq_ok_iff {α : Type} [Scalar α] {resolution : α} {tilesize pad : Nat} {g : Grid α} :
    make resolution tilesize pad = .ok g ↔
      0 < tilesize ∧ IsResolution resolution ∧ tilesize + 2 * pad ≤ TileKey.maxPixels ∧
        g = ⟨resolution, tilesize, pad⟩ := by
  unfold make
  by_cases htilesize : tilesize = 0
  · simp [htilesize]
  · by_cases hresolution : IsResolution resolution
    · by_cases hraster : TileKey.maxPixels < tilesize + 2 * pad
      · simp [htilesize, hresolution, hraster, Nat.not_le_of_lt hraster]
      · simp [htilesize, hresolution, hraster, Nat.le_of_not_lt hraster,
          Nat.pos_of_ne_zero htilesize, eq_comm]
    · simp [htilesize, hresolution]

variable {α : Type} [Elementary α]

/-- The tile of a position is the cell that its projection falls into. -/
theorem tileAt_eq_ok_iff {g : Grid α} {lon lat : α} {t : Tile α} :
    g.tileAt lon lat = .ok t ↔
      Zone.HasLon lon ∧ Scalar.isFinite lon = true ∧ Zone.HasLat lat ∧ t = {
        grid := g
        zone := Zone.numberOf lon
        ti := Scalar.floorIndex
          (((Utm.project (Zone.numberOf lon) lon lat).1 - Utm.falseEasting) / g.step)
        tj := Scalar.floorIndex ((Utm.project (Zone.numberOf lon) lon lat).2 / g.step) } := by
  by_cases hlon : Zone.HasLon lon
  · -- a longitude on the globe is looked up as it is
    have hnormal : Zone.normalizeLon lon = lon := if_pos hlon
    unfold tileAt Zone.ofPosition
    rw [if_neg (not_not.2 hlon), hnormal]
    cases hfinite : Scalar.isFinite lon with
    | false =>
      simp only [Bool.not_false, if_true, Bool.false_eq_true, false_and, and_false, iff_false]
      exact fun h => by cases h
    | true =>
      by_cases hlat : Zone.HasLat lat
      · rw [if_neg (not_not.2 hlat)]
        simp only [Bool.not_true, Bool.false_eq_true, if_false, hlon, hlat, true_and]
        constructor
        · intro h
          cases h
          rfl
        · rintro rfl
          rfl
      · rw [if_pos hlat]
        simp only [Bool.not_true, Bool.false_eq_true, if_false, hlat, false_and, and_false,
          iff_false]
        exact fun h => by cases h
  · unfold tileAt
    rw [if_pos hlon]
    simp only [hlon, false_and, iff_false]
    exact fun h => by cases h

end Grid

namespace Tile

variable {α : Type} [Elementary α]

/-- The pixel of a position is the square that its projection falls into. -/
theorem pixelOf_eq_ok_iff {t : Tile α} {lon lat : α} {pixel : α × α}
    (hpixel : t.pixelAt (Utm.project t.zone lon lat).1 (Utm.project t.zone lon lat).2 = pixel)
    {row col : Int} : t.pixelOf lon lat = .ok (row, col) ↔
      Scalar.isFinite lon = true ∧ Zone.HasLat lat ∧
        (Scalar.isFinite pixel.1 = true ∧ Scalar.isFinite pixel.2 = true) ∧
        row = Scalar.floorIndex pixel.1 ∧ col = Scalar.floorIndex pixel.2 := by
  have hunfold : t.pixelOf lon lat =
      if !Scalar.isFinite lon then .error (.position (.longitudeNotFinite lon))
      else if ¬ Zone.HasLat lat then .error (.position (.latitudeOutside lat))
      else if !Scalar.isFinite pixel.1 || !Scalar.isFinite pixel.2 then
        .error (.position (.nowhereInZone lon lat t.zone))
      else .ok (Scalar.floorIndex pixel.1, Scalar.floorIndex pixel.2) := by
    rw [← hpixel]
    rfl
  rw [hunfold]
  cases Scalar.isFinite lon with
  | false => simp
  | true =>
    by_cases hlat : Zone.HasLat lat
    · cases Scalar.isFinite pixel.1 <;> cases Scalar.isFinite pixel.2 <;> simp [hlat, eq_comm]
    · simp [hlat]

/-- The position of a pixel is that of its center, if its row and column and the position are finite. -/
theorem positionOf_eq_ok_iff {α : Type} [Elementary α] {t : Tile α} {row col : α} {p : Point α} :
    t.positionOf row col = .ok p ↔
      (Scalar.isFinite row = true ∧ Scalar.isFinite col = true) ∧
        (Scalar.isFinite p.x = true ∧ Scalar.isFinite p.y = true) ∧
        Utm.unproject t.zone (t.pixelCenter row col).x (t.pixelCenter row col).y = (p.x, p.y) := by
  unfold positionOf
  simp only
  generalize Utm.unproject t.zone (t.pixelCenter row col).x (t.pixelCenter row col).y = place
  obtain ⟨lon, lat⟩ := place
  simp only [Prod.mk.injEq]
  constructor
  · intro h
    split at h
    · cases h
    · next hpixel =>
      split at h
      · cases h
      · next hplace =>
        cases h
        simp only [Bool.or_eq_true, Bool.not_eq_true', not_or, Bool.not_eq_false] at hpixel hplace
        exact ⟨hpixel, hplace, rfl, rfl⟩
  · rintro ⟨⟨hrow, hcol⟩, ⟨hlon, hlat⟩, rfl, rfl⟩
    simp only [hrow, hcol, hlon, hlat, Bool.not_true, Bool.or_self, Bool.false_eq_true, if_false]

end Tile
end UtmTiles
