import UtmTiles.Proofs.Binary64.Index
import UtmTiles.Proofs.Scalar.Real
import UtmTiles.Proofs.Tile.Place
import UtmTiles.Tile.Pixel
import Mathlib.Tactic.FieldSimp
import Mathlib.Tactic.Linarith
import Mathlib.Tactic.NormNum.OfScientific

/-!
# The pixel of a tile's own position

The tile of a position is looked up by rounding down its easting and its northing. A column is
rounded down as well, but rows count downwards, so that rounding down a row rounds up the northing.
On the lower edge of a cell, such as the equator, the two do not fit together: the edge belongs to
the tile above it, and its pixels to the row below that tile's last one.
-/

namespace UtmTiles

/-! ## Exact arithmetic -/

namespace Grid

theorem pos_of_isResolution {resolution : ℝ} (h : IsResolution resolution) : 0 < resolution := by
  have hpositive := h.2
  norm_num at hpositive
  exact hpositive

theorem resolution_pos {g : Grid ℝ} {resolution : ℝ} {tilesize pad : ℕ}
    (hmake : Grid.make resolution tilesize pad = .ok g) : 0 < g.resolution := by
  obtain ⟨-, hresolution, -, rfl⟩ := make_eq_ok_iff.1 hmake
  exact pos_of_isResolution hresolution

theorem step_real (g : Grid ℝ) : g.step = g.tilesize * g.resolution := by
  simp only [step, meters, Scalar.ofInt_real, Int.cast_natCast]

end Grid

theorem Utm.falseEasting_real : (Utm.falseEasting : ℝ) = 500000 := by
  norm_num [Utm.falseEasting]

namespace Tile

theorem minCol_real (t : Tile ℝ) : t.minCol = t.grid.tilesize * t.ti - t.grid.pad := rfl

theorem maxRow_real (t : Tile ℝ) : t.maxRow = t.grid.tilesize * (t.tj + 1) + t.grid.pad := by
  simp only [maxRow, Scalar.ofInt_real, Int.cast_natCast]
  norm_num

theorem pixelAt_real (t : Tile ℝ) (easting northing : ℝ) :
    t.pixelAt easting northing =
      (t.grid.tilesize * (t.tj + 1) + t.grid.pad - northing / t.grid.resolution,
       (easting - 500000) / t.grid.resolution - (t.grid.tilesize * t.ti - t.grid.pad)) := by
  simp only [pixelAt, maxRow_real, minCol_real, Utm.falseEasting_real]

/-! ## Cells in pixels -/

section Cells

variable {size : Nat} {resolution : ℝ}

/-- The cell that an offset falls into, in pixels. -/
theorem floor_cell_bounds (hsize : 0 < size) (hresolution : 0 < resolution) (offset : ℝ) :
    (size : ℝ) * ⌊offset / (size * resolution)⌋ ≤ offset / resolution ∧
      offset / resolution < size * (⌊offset / (size * resolution)⌋ + 1) := by
  have hpositive : (0 : ℝ) < size := by exact_mod_cast hsize
  have hpixels : offset / resolution = size * (offset / (size * resolution)) := by
    field_simp
  rw [hpixels]
  exact ⟨mul_le_mul_of_nonneg_left (Int.floor_le _) hpositive.le,
    mul_lt_mul_of_pos_left (Int.lt_floor_add_one _) hpositive⟩

/-- Columns of a cell are those of the raster without padding. -/
theorem floor_column_bounds (hsize : 0 < size) (hresolution : 0 < resolution) (offset : ℝ)
    (pad : Nat) :
    (pad : ℤ) ≤ ⌊offset / resolution - (size * ⌊offset / (size * resolution)⌋ - pad)⌋ ∧
      ⌊offset / resolution - (size * ⌊offset / (size * resolution)⌋ - pad)⌋ < pad + size := by
  obtain ⟨hlow, hhigh⟩ := floor_cell_bounds hsize hresolution offset
  rw [Int.le_floor, Int.floor_lt]
  push_cast
  constructor <;> linarith

/-- Rows of a cell are those of the raster without padding, and the one below them. -/
theorem floor_row_bounds (hsize : 0 < size) (hresolution : 0 < resolution) (offset : ℝ)
    (pad : Nat) :
    (pad : ℤ) ≤
        ⌊(size : ℝ) * (⌊offset / (size * resolution)⌋ + 1) + pad - offset / resolution⌋ ∧
      ⌊(size : ℝ) * (⌊offset / (size * resolution)⌋ + 1) + pad - offset / resolution⌋ ≤
        pad + size := by
  obtain ⟨hlow, hhigh⟩ := floor_cell_bounds hsize hresolution offset
  rw [Int.le_floor, ← Int.lt_add_one_iff, Int.floor_lt]
  push_cast
  constructor <;> linarith

/-- The row below the raster without padding is that of the cell's lower edge. -/
theorem floor_row_lt_iff (hsize : 0 < size) (hresolution : 0 < resolution) (offset : ℝ)
    (pad : Nat) :
    ⌊(size : ℝ) * (⌊offset / (size * resolution)⌋ + 1) + pad - offset / resolution⌋ <
        pad + size ↔
      offset ≠ ⌊offset / (size * resolution)⌋ * (size * resolution) := by
  obtain ⟨hlow, _⟩ := floor_cell_bounds hsize hresolution offset
  have hedge : offset = ⌊offset / (size * resolution)⌋ * (size * resolution) ↔
      offset / resolution = size * ⌊offset / (size * resolution)⌋ := by
    rw [div_eq_iff hresolution.ne']
    constructor <;> intro h <;> linarith
  rw [Int.floor_lt, Ne, hedge]
  push_cast
  constructor
  · intro hrow heq
    linarith
  · intro hne
    have hlt := lt_of_le_of_ne hlow (Ne.symm hne)
    linarith

end Cells

/-- In exact arithmetic, the pixel that a looked-up tile gives for its own position lies in the
raster without padding, except that the row of a position on the lower edge of the cell is the one
below. -/
theorem pixelOf_tileAt {g : Grid ℝ} {resolution : ℝ} {tilesize pad : Nat}
    (hgrid : Grid.make resolution tilesize pad = .ok g) {lon lat : ℝ} {t : Tile ℝ}
    (ht : g.tileAt lon lat = .ok t) :
    ∃ row col : Int, t.pixelOf lon lat = .ok (row, col) ∧
      (pad : Int) ≤ col ∧ col < pad + tilesize ∧
      (pad : Int) ≤ row ∧ row ≤ pad + tilesize ∧
      (row < pad + tilesize ↔ (Utm.project t.zone lon lat).2 ≠ t.cell.minY) := by
  obtain ⟨htilesize, hfinite, -, rfl⟩ := Grid.make_eq_ok_iff.1 hgrid
  have hresolution := Grid.pos_of_isResolution hfinite
  obtain ⟨-, -, hlat, hcell⟩ := Grid.tileAt_eq_ok_iff.1 ht
  have hzone : t.zone = Zone.numberOf lon := congrArg Tile.zone hcell
  rw [← hzone] at hcell
  rw [Grid.step_real] at hcell
  generalize hprojected : Utm.project t.zone lon lat = projected at hcell
  obtain ⟨easting, northing⟩ := projected
  have hfalse : (Utm.falseEasting : ℝ) = 500000 := by norm_num [Utm.falseEasting]
  have hedge : t.cell.minY = ⌊northing / (tilesize * resolution)⌋ * (tilesize * resolution) := by
    rw [hcell]
    simp only [cell, Grid.step_real, Scalar.ofInt_real, Scalar.floorIndex_real]
  have hpixel : t.pixelOf lon lat = .ok
      (⌊(tilesize : ℝ) * (⌊northing / (tilesize * resolution)⌋ + 1) + pad
          - northing / resolution⌋,
       ⌊(easting - 500000) / resolution
          - (tilesize * ⌊(easting - 500000) / (tilesize * resolution)⌋ - pad)⌋) := by
    refine (pixelOf_eq_ok_iff (t.pixelAt_real _ _)).2 ⟨rfl, hlat, ⟨rfl, rfl⟩, ?_⟩
    rw [hprojected, hcell]
    simp only [Scalar.floorIndex_real, hfalse, and_self]
  refine ⟨_, _, hpixel, ?_⟩
  -- columns and rows count from the cell's edges in pixels
  obtain ⟨hleft, hright⟩ :=
    floor_column_bounds htilesize hresolution (easting - 500000) pad
  obtain ⟨htop, hbottom⟩ := floor_row_bounds htilesize hresolution northing pad
  rw [hedge]
  exact ⟨hleft, hright, htop, hbottom, floor_row_lt_iff htilesize hresolution northing pad⟩

/-- In exact arithmetic the equator has the northing 0. -/
theorem northing_equator (zone : Nat) (lon : ℝ) : (Utm.project zone lon 0).2 = 0 := by
  have hsin : Elementary.sin (Elementary.toRadians (0 : ℝ)) = 0 := by
    simp only [Elementary.toRadians, zero_mul]
    exact Real.sin_zero
  have htangent : Utm.sphereTangent (0 : ℝ) = 0 := by
    have hartanh : Elementary.atanh (0 : ℝ) = 0 := Real.artanh_zero
    simp only [Utm.sphereTangent, mul_zero, hartanh, sub_zero]
    exact Real.sinh_zero
  have harctan : Elementary.atan (0 : ℝ) = 0 := Real.arctan_zero
  have hsin_zero : Elementary.sin (0 : ℝ) = 0 := Real.sin_zero
  simp only [Utm.project, hsin, htangent, zero_div, harctan, mul_zero, hsin_zero, zero_mul,
    add_zero]

/-- On the equator the row is the one below the raster without padding. -/
theorem pixelOf_tileAt_equator :
    let g : Grid ℝ := ⟨1, 500, 0⟩
    Grid.make 1 500 0 = .ok g ∧ ∃ t, g.tileAt 3 0 = .ok t ∧
      ∃ row col : Int, t.pixelOf 3 0 = .ok (row, col) ∧ 0 ≤ col ∧ col < 500 ∧ row = 500 := by
  intro g
  have hgrid : Grid.make 1 500 0 = .ok g :=
    Grid.make_eq_ok_iff.2 ⟨by decide, ⟨rfl, by norm_num⟩, by decide, rfl⟩
  have hlon : Zone.HasLon (3 : ℝ) := by
    constructor <;> norm_num [Zone.maxLon]
  have hlat : Zone.HasLat (0 : ℝ) := by
    constructor <;> norm_num [Zone.maxLat]
  have ht := (Grid.tileAt_eq_ok_iff (g := g)).2 ⟨hlon, rfl, hlat, rfl⟩
  obtain ⟨row, col, hpixel, hleft, hright, -, hbottom, hrow⟩ := pixelOf_tileAt hgrid ht
  refine ⟨hgrid, _, ht, row, col, hpixel, by simpa using hleft, by simpa using hright, ?_⟩
  have hedge : ¬ row < (0 : Nat) + (500 : Nat) := by
    rw [hrow, not_not]
    simp only [northing_equator, cell, Scalar.floorIndex_real, Scalar.ofInt_real, zero_div,
      Int.floor_zero, Int.cast_zero, zero_mul]
  omega

/-! ## Doubles -/

open Binary64

/-- A northing of 0 belongs to row 0 of the lattice, whatever the step, even an infinite one. -/
theorem floorIndex_div_step {resolution northing : Float} {tilesize : Nat}
    (htilesize : 0 < tilesize) (hlarge : tilesize < 2 ^ 53)
    (hresolution : Grid.IsResolution resolution)
    (hnorthing : northing.isFinite = true ∧ value northing = 0) :
    Scalar.floorIndex (northing / (Float.ofInt tilesize * resolution)) = 0 := by
  have hsize := isRounded_ofInt hlarge
  have habs : |(tilesize : ℤ)| < 2 ^ 53 := by
    rw [Nat.abs_cast]
    exact_mod_cast hlarge
  have hpositive : 0 < value resolution := (lt_iff rfl hresolution.1).1 hresolution.2
  rcases isFinite_or_isInf_mul hsize.isFinite hresolution.1 with h | h
  · have hstep : 0 < value (Float.ofInt tilesize * resolution) := by
      rw [h.value, value_of_isRounded hsize habs, Int.cast_natCast]
      exact rounded_mul_pos hresolution.1 hpositive htilesize
    have hquotient := isRounded_div hnorthing.1 h.isFinite hstep.ne'
    rw [hnorthing.2, zero_div, rounded_zero] at hquotient
    have hindex := hquotient (by norm_num)
    rw [floorIndex_eq hindex.isFinite, hindex.value, rounded_zero, Int.floor_zero]
    rfl
  · exact floorIndex_div_of_isInf northing h

/-- The top row of a tile in row 0 of the lattice is a whole number. -/
theorem isRounded_maxRow {t : Tile Float} (htj : t.tj = 0)
    (hraster : t.grid.tilesize + 2 * t.grid.pad ≤ TileKey.maxPixels) :
    IsRounded t.maxRow ((t.grid.tilesize + t.grid.pad : ℕ) : ℤ) := by
  change t.grid.tilesize + 2 * t.grid.pad ≤ 2 ^ 32 - 1 at hraster
  have hsize := isRounded_ofInt (n := t.grid.tilesize) (by omega)
  have hpad := isRounded_ofInt (n := t.grid.pad) (by omega)
  have hsize_value := value_of_isRounded hsize (by rw [Nat.abs_cast]; omega)
  have hpad_value := value_of_isRounded hpad (by rw [Nat.abs_cast]; omega)
  have hnext : value (Float.ofInt 0 + 1.0) = 1 := by
    change exactValue (.finite .positive (2 ^ 52) (-52) (by decide)) = 1
    norm_num [exactValue, signed]
  have hcells : IsRounded (Float.ofInt t.grid.tilesize * (Float.ofInt 0 + 1.0))
      (t.grid.tilesize : ℤ) := by
    have hproduct := isRounded_mul (y := Float.ofInt 0 + 1.0) hsize.isFinite rfl
    rw [hnext, mul_one, hsize_value] at hproduct
    exact hproduct (abs_rounded_intCast_lt (by rw [Nat.abs_cast]; omega))
  have hsum := isRounded_add hcells.isFinite hpad.isFinite
  rw [value_of_isRounded hcells (by rw [Nat.abs_cast]; omega), hpad_value, ← Int.cast_add,
    ← Nat.cast_add] at hsum
  have htop := hsum (abs_rounded_intCast_lt (by rw [Nat.abs_cast]; omega))
  unfold maxRow
  rw [htj]
  exact htop

/-- In doubles as well, the row of a position with the northing 0 is the one below the raster
without padding. -/
theorem row_of_northing_zero {g : Grid Float} {resolution : Float} {tilesize pad : Nat}
    (hgrid : Grid.make resolution tilesize pad = .ok g) {lon lat : Float} {t : Tile Float}
    (ht : g.tileAt lon lat = .ok t) (hnorthing : Scalar.same (Utm.project t.zone lon lat).2 0.0)
    {row col : Int} (hpixel : t.pixelOf lon lat = .ok (row, col)) : row = pad + tilesize := by
  obtain ⟨htilesize, hresolution, hraster, rfl⟩ := Grid.make_eq_ok_iff.1 hgrid
  change tilesize + 2 * pad ≤ 2 ^ 32 - 1 at hraster
  obtain ⟨-, -, -, hcell⟩ := Grid.tileAt_eq_ok_iff.1 ht
  have hgrid : t.grid = ⟨resolution, tilesize, pad⟩ := congrArg Tile.grid hcell
  have htj : t.tj = Scalar.floorIndex ((Utm.project t.zone lon lat).2 /
      (Float.ofInt tilesize * resolution)) := by
    rw [hcell]
    rfl
  obtain ⟨-, -, -, hrow, -⟩ := (pixelOf_eq_ok_iff rfl).1 hpixel
  change row = Scalar.floorIndex
    (t.maxRow - (Utm.project t.zone lon lat).2 / t.grid.resolution) at hrow
  generalize Utm.project t.zone lon lat = projected at hnorthing htj hrow
  obtain ⟨easting, northing⟩ := projected
  -- the zero may have either sign
  have hzero : northing.isFinite = true ∧ value northing = 0 := by
    obtain ⟨hle, hge⟩ := of_decide_eq_true hnorthing
    have hnorth := isFinite_of_le_of_le rfl rfl hge hle
    exact ⟨hnorth, le_antisymm ((le_iff hnorth rfl).1 hle) ((le_iff rfl hnorth).1 hge)⟩
  -- the cell is in row 0, and its top row and the offset from there are exact
  rw [floorIndex_div_step htilesize (by omega) hresolution hzero] at htj
  have htop := isRounded_maxRow htj (by rw [hgrid]; exact hraster)
  have hpositive : 0 < value resolution := (lt_iff rfl hresolution.1).1 hresolution.2
  have hoffset := isRounded_div hzero.1 hresolution.1 hpositive.ne'
  rw [hzero.2, zero_div, rounded_zero] at hoffset
  replace hoffset := hoffset (by norm_num)
  have habs : |((tilesize + pad : ℕ) : ℤ)| < 2 ^ 53 := by
    rw [Nat.abs_cast]
    omega
  simp only [hgrid] at htop hrow
  have hdifference := isRounded_sub htop.isFinite hoffset.isFinite
  rw [value_of_isRounded htop habs, hoffset.value, rounded_zero, sub_zero] at hdifference
  replace hdifference := hdifference (abs_rounded_intCast_lt habs)
  rw [hrow, floorIndex_eq hdifference.isFinite, value_of_isRounded hdifference habs,
    Int.floor_intCast, clampIndex_eq (by unfold minIndex; omega) (by unfold maxIndex; omega)]
  push_cast
  exact add_comm _ _

end Tile
end UtmTiles
