import UtmTiles.Proofs.Tile.Raster
import Mathlib.Data.Set.NAry
import Mathlib.Order.Interval.Set.Basic

/-!
# The mosaic of the rasters

The tiles of a grid count their pixels in one lattice that covers the zone's plane, from the pole to
the other pole: another tile has the same pixels with other rows and columns. In exact arithmetic,
this shift is all that differs between two tiles, even if the equator lies between them and they are
described in different coordinate systems (`Tile.pixelCenter_of_grid_eq`, `Tile.pixelAt_of_grid_eq`).

The rasters of neighbors have the pixels in common that the padding of both is made of: the last
columns of the one and the first columns of the other (`Tile.rasterCenters_inter_east`), or rows
(`Tile.rasterCenters_inter_south`).
-/

namespace UtmTiles

theorem Grid.rasterSize_intCast (g : Grid ℝ) : (g.rasterSize : ℤ) = g.tilesize + 2 * g.pad := by
  simp only [rasterSize, Nat.cast_add, Nat.cast_mul, Nat.cast_ofNat]

namespace Tile

/-! ## Pixels of two tiles -/

/-- How many rows further down a pixel of `t` is in the raster of `u`. -/
def rowShift (t u : Tile ℝ) : ℤ := t.grid.tilesize * (u.tj - t.tj)

/-- How many columns further left a pixel of `t` is in the raster of `u`. -/
def colShift (t u : Tile ℝ) : ℤ := t.grid.tilesize * (u.ti - t.ti)

section Shift

variable {t u : Tile ℝ}

theorem maxRow_of_grid_eq (hgrid : u.grid = t.grid) : u.maxRow = t.maxRow + rowShift t u := by
  rw [maxRow_real, maxRow_real, hgrid, rowShift]
  push_cast
  ring

theorem minCol_of_grid_eq (hgrid : u.grid = t.grid) : u.minCol = t.minCol + colShift t u := by
  rw [minCol_real, minCol_real, hgrid, colShift]
  push_cast
  ring

/-- A pixel of one tile is one of the other, by a shift of rows and columns. -/
theorem pixelCenter_of_grid_eq (hgrid : u.grid = t.grid) (row col : ℝ) :
    u.pixelCenter (row + rowShift t u) (col - colShift t u) = t.pixelCenter row col := by
  rw [pixelCenter, pixelCenter, maxRow_of_grid_eq hgrid, minCol_of_grid_eq hgrid, hgrid]
  congr 2 <;> ring

/-- The row and the column of a point differ by the shift. -/
theorem pixelAt_of_grid_eq (hgrid : u.grid = t.grid) (easting northing : ℝ) :
    u.pixelAt easting northing =
      ((t.pixelAt easting northing).1 + rowShift t u,
       (t.pixelAt easting northing).2 - colShift t u) := by
  rw [pixelAt, pixelAt, maxRow_of_grid_eq hgrid, minCol_of_grid_eq hgrid, hgrid]
  congr 1 <;> ring

theorem positionOf_of_grid_eq (hgrid : u.grid = t.grid) (hzone : u.zone = t.zone) (row col : ℝ) :
    u.positionOf (row + rowShift t u) (col - colShift t u) = t.positionOf row col := by
  rw [positionOf_real, positionOf_real, pixelCenter_of_grid_eq hgrid, hzone]

theorem pixelOf_of_grid_eq (hgrid : u.grid = t.grid) (hzone : u.zone = t.zone) (lon lat : ℝ) :
    u.pixelOf lon lat =
      (t.pixelOf lon lat).map fun pixel => (pixel.1 + rowShift t u, pixel.2 - colShift t u) := by
  rw [pixelOf_real, pixelOf_real, hzone, pixelAt_of_grid_eq hgrid, Int.floor_add_intCast,
    Int.floor_sub_intCast]
  split <;> rfl

end Shift

/-! ## Pixels in common -/

open Set (Ico)

/-- The centers of the pixels in some rows and columns. -/
def centers (t : Tile ℝ) (rows cols : Set ℤ) : Set (Point ℝ) :=
  Set.image2 (fun row col : ℤ => t.pixelCenter row col) rows cols

/-- The centers of the pixels of a raster. -/
def rasterCenters (t : Tile ℝ) : Set (Point ℝ) :=
  t.centers (Ico 0 t.grid.rasterSize) (Ico 0 t.grid.rasterSize)

section Common

variable {t u : Tile ℝ}

theorem pixelCenter_inj (hresolution : 0 < t.grid.resolution) {row col row' col' : ℝ} :
    t.pixelCenter row' col' = t.pixelCenter row col ↔ row' = row ∧ col' = col := by
  simp only [pixelCenter, Point.mk.injEq, add_left_inj, sub_left_inj, sub_right_inj,
    mul_left_inj' hresolution.ne']
  exact and_comm

/-- A block of pixels of one tile is one of the other. -/
theorem centers_of_grid_eq (hgrid : u.grid = t.grid) (top bottom left right : ℤ) :
    u.centers (Ico top bottom) (Ico left right) =
      t.centers (Ico (top - rowShift t u) (bottom - rowShift t u))
        (Ico (left + colShift t u) (right + colShift t u)) := by
  ext p
  constructor
  · rintro ⟨row, ⟨htop, hbottom⟩, col, ⟨hleft, hright⟩, rfl⟩
    refine ⟨row - rowShift t u, ⟨by omega, by omega⟩, col + colShift t u,
      ⟨by omega, by omega⟩, ?_⟩
    dsimp only
    rw [← pixelCenter_of_grid_eq hgrid]
    push_cast
    rw [sub_add_cancel, add_sub_cancel_right]
  · rintro ⟨row, ⟨htop, hbottom⟩, col, ⟨hleft, hright⟩, rfl⟩
    refine ⟨row + rowShift t u, ⟨by omega, by omega⟩, col - colShift t u,
      ⟨by omega, by omega⟩, ?_⟩
    dsimp only
    push_cast
    exact pixelCenter_of_grid_eq hgrid row col

theorem centers_inter (hresolution : 0 < t.grid.resolution) (rows rows' cols cols' : Set ℤ) :
    t.centers rows cols ∩ t.centers rows' cols' = t.centers (rows ∩ rows') (cols ∩ cols') := by
  ext p
  constructor
  · rintro ⟨⟨row, hrow, col, hcol, rfl⟩, row', hrow', col', hcol', hsame⟩
    obtain ⟨hrows, hcols⟩ := (pixelCenter_inj hresolution).1 hsame
    rw [Int.cast_inj] at hrows hcols
    subst hrows hcols
    exact ⟨_, ⟨hrow, hrow'⟩, _, ⟨hcol, hcol'⟩, rfl⟩
  · rintro ⟨row, ⟨hrow, hrow'⟩, col, ⟨hcol, hcol'⟩, rfl⟩
    exact ⟨⟨row, hrow, col, hcol, rfl⟩, row, hrow', col, hcol', rfl⟩

/-- Two rasters have a block of pixels in common. -/
theorem rasterCenters_inter (hgrid : u.grid = t.grid) (hresolution : 0 < t.grid.resolution) :
    t.rasterCenters ∩ u.rasterCenters =
      t.centers
        (Ico (max 0 (-rowShift t u)) (min t.grid.rasterSize (t.grid.rasterSize - rowShift t u)))
        (Ico (max 0 (colShift t u)) (min t.grid.rasterSize (t.grid.rasterSize + colShift t u))) := by
  rw [rasterCenters, rasterCenters, hgrid, centers_of_grid_eq hgrid, centers_inter hresolution,
    Set.Ico_inter_Ico, Set.Ico_inter_Ico, zero_sub, zero_add]

/-! ### Pixels near an edge -/

theorem intCast_lt_add_half {m k : ℤ} : (m : ℝ) < k + 1 / 2 ↔ m ≤ k := by
  constructor
  · intro h
    have hlt : (m : ℝ) < (k + 1 : ℤ) := by
      push_cast
      linarith
    exact Int.lt_add_one_iff.1 (by exact_mod_cast hlt)
  · intro h
    have hle : (m : ℝ) ≤ k := by exact_mod_cast h
    linarith

theorem intCast_add_half_lt {m k : ℤ} : (k : ℝ) + 1 / 2 < m ↔ k < m := by
  constructor
  · intro h
    have hlt : (k : ℝ) < m := by linarith
    exact_mod_cast hlt
  · intro h
    have hle : ((k + 1 : ℤ) : ℝ) ≤ m := by exact_mod_cast h
    push_cast at hle
    linarith

/-- Pixels that are nearer to the last edge of the cell than the padding is wide are the last ones
of the raster, twice as many as in the padding. -/
theorem abs_sub_edge_lt_iff {resolution : ℝ} (hresolution : 0 < resolution) {k : ℤ} {size pad : ℕ} :
    |((k : ℝ) + 1 / 2 - (size + pad)) * resolution| < pad * resolution ↔
      k ∈ Ico (size : ℤ) (size + 2 * pad : ℕ) := by
  have hlow := intCast_lt_add_half (m := size) (k := k)
  have hhigh := intCast_add_half_lt (m := (size + 2 * pad : ℕ)) (k := k)
  push_cast at hlow hhigh
  rw [abs_mul, abs_of_pos hresolution, mul_lt_mul_iff_left₀ hresolution, abs_lt, Set.mem_Ico]
  push_cast
  rw [← hlow, ← hhigh]
  constructor
  · rintro ⟨hleft, hright⟩
    constructor <;> linarith
  · rintro ⟨hleft, hright⟩
    constructor <;> linarith

theorem pixelCenter_sub_maxX (t : Tile ℝ) (row col : ℝ) :
    (t.pixelCenter row col).x - t.cell.maxX =
      (col + 1 / 2 - (t.grid.tilesize + t.grid.pad)) * t.grid.resolution := by
  have hone : (1.0 : ℝ) = 1 := by norm_num
  simp only [pixelCenter_real, cell, minCol_real, Grid.step_real, Scalar.ofInt_real,
    Utm.falseEasting_real, hone]
  ring

theorem minY_sub_pixelCenter (t : Tile ℝ) (row col : ℝ) :
    t.cell.minY - (t.pixelCenter row col).y =
      (row + 1 / 2 - (t.grid.tilesize + t.grid.pad)) * t.grid.resolution := by
  simp only [pixelCenter_real, cell, maxRow_real, Grid.step_real, Scalar.ofInt_real]
  ring

end Common

/-! ### Neighbors -/

section Neighbors

variable {t u : Tile ℝ}

theorem minX_of_east (hgrid : u.grid = t.grid) (hti : u.ti = t.ti + 1) :
    u.cell.minX = t.cell.maxX := by
  have hone : (1.0 : ℝ) = 1 := by norm_num
  simp only [cell, hgrid, hti, Scalar.ofInt_real, hone]
  push_cast
  rfl

theorem maxY_of_south (hgrid : u.grid = t.grid) (htj : u.tj = t.tj - 1) :
    u.cell.maxY = t.cell.minY := by
  have hone : (1.0 : ℝ) = 1 := by norm_num
  simp only [cell, hgrid, htj, Scalar.ofInt_real, hone]
  push_cast
  rw [sub_add_cancel]

/-- The rasters of a tile and its eastern neighbor share the columns near the edge between them. -/
theorem rasterCenters_inter_east (hgrid : u.grid = t.grid) (hresolution : 0 < t.grid.resolution)
    (hti : u.ti = t.ti + 1) (htj : u.tj = t.tj) :
    let size : ℤ := t.grid.rasterSize
    let shared := t.rasterCenters ∩ u.rasterCenters
    shared = t.centers (Ico 0 size) (Ico t.grid.tilesize size) ∧
      shared = u.centers (Ico 0 size) (Ico 0 (2 * t.grid.pad)) := by
  intro size shared
  have hrows : rowShift t u = 0 := by rw [rowShift, htj, sub_self, mul_zero]
  have hcols : colShift t u = t.grid.tilesize := by
    rw [colShift, hti, add_sub_cancel_left, mul_one]
  have hsize : size = t.grid.tilesize + 2 * t.grid.pad := t.grid.rasterSize_intCast
  simp only [shared, rasterCenters_inter hgrid hresolution, centers_of_grid_eq hgrid, hrows, hcols]
  -- both are blocks of the one lattice, the first counted by `t` and the second by `u`
  constructor
  · congr 2 <;> omega
  · congr 2 <;> omega

/-- The rasters of a tile and its southern neighbor share the rows near the edge between them. -/
theorem rasterCenters_inter_south (hgrid : u.grid = t.grid) (hresolution : 0 < t.grid.resolution)
    (hti : u.ti = t.ti) (htj : u.tj = t.tj - 1) :
    let size : ℤ := t.grid.rasterSize
    let shared := t.rasterCenters ∩ u.rasterCenters
    shared = t.centers (Ico t.grid.tilesize size) (Ico 0 size) ∧
      shared = u.centers (Ico 0 (2 * t.grid.pad)) (Ico 0 size) := by
  intro size shared
  have hrows : rowShift t u = -t.grid.tilesize := by
    rw [rowShift, htj, sub_sub_cancel_left, mul_neg_one]
  have hcols : colShift t u = 0 := by rw [colShift, hti, sub_self, mul_zero]
  have hsize : size = t.grid.tilesize + 2 * t.grid.pad := t.grid.rasterSize_intCast
  simp only [shared, rasterCenters_inter hgrid hresolution, centers_of_grid_eq hgrid, hrows, hcols]
  constructor
  · congr 2 <;> omega
  · congr 2 <;> omega

end Neighbors

/-- In exact arithmetic, two tiles of one grid and zone give a pixel the same position and a position
the same pixel, up to the shift between them, on whichever sides of the equator they are. -/
theorem tiles_form_mosaic {t u : Tile ℝ} {resolution : ℝ} {tilesize pad : ℕ}
    (hmake : Grid.make resolution tilesize pad = .ok t.grid) (hgrid : u.grid = t.grid)
    (hzone : u.zone = t.zone) :
    let down : ℤ := t.grid.tilesize * (u.tj - t.tj)
    let right : ℤ := t.grid.tilesize * (u.ti - t.ti)
    let size : ℤ := t.grid.rasterSize
    let shared := t.rasterCenters ∩ u.rasterCenters
    (∀ row col, t.positionOf row col = u.positionOf (row + down) (col - right)) ∧
      (∀ lon lat, u.pixelOf lon lat =
        (t.pixelOf lon lat).map fun pixel => (pixel.1 + down, pixel.2 - right)) ∧
      (u.ti = t.ti + 1 ∧ u.tj = t.tj → u.cell.minX = t.cell.maxX ∧
        shared = t.centers (Ico 0 size) (Ico t.grid.tilesize size) ∧
        shared = u.centers (Ico 0 size) (Ico 0 (2 * t.grid.pad)) ∧
        ∀ row col : ℤ, |(t.pixelCenter row col).x - t.cell.maxX| < t.grid.pad * t.grid.resolution ↔
          col ∈ Ico (t.grid.tilesize : ℤ) size) ∧
      (u.ti = t.ti ∧ u.tj = t.tj - 1 → u.cell.maxY = t.cell.minY ∧
        shared = t.centers (Ico t.grid.tilesize size) (Ico 0 size) ∧
        shared = u.centers (Ico 0 (2 * t.grid.pad)) (Ico 0 size) ∧
        ∀ row col : ℤ, |(t.pixelCenter row col).y - t.cell.minY| < t.grid.pad * t.grid.resolution ↔
          row ∈ Ico (t.grid.tilesize : ℤ) size) := by
  intro down right size shared
  have hresolution := Grid.resolution_pos hmake
  refine ⟨fun row col => (positionOf_of_grid_eq hgrid hzone row col).symm,
    pixelOf_of_grid_eq hgrid hzone, ?_, ?_⟩
  · rintro ⟨hti, htj⟩
    obtain ⟨hlast, hfirst⟩ := rasterCenters_inter_east hgrid hresolution hti htj
    refine ⟨minX_of_east hgrid hti, hlast, hfirst, fun row col => ?_⟩
    rw [pixelCenter_sub_maxX]
    exact abs_sub_edge_lt_iff hresolution
  · rintro ⟨hti, htj⟩
    obtain ⟨hlast, hfirst⟩ := rasterCenters_inter_south hgrid hresolution hti htj
    refine ⟨maxY_of_south hgrid htj, hlast, hfirst, fun row col => ?_⟩
    rw [abs_sub_comm, minY_sub_pixelCenter]
    exact abs_sub_edge_lt_iff hresolution

/-- Two tiles with the equator between them share sixteen rows. -/
theorem tiles_form_mosaic_across_equator :
    let t : Tile ℝ := ⟨⟨10, 100, 8⟩, 33, -3, 0⟩
    let u : Tile ℝ := ⟨⟨10, 100, 8⟩, 33, -3, -1⟩
    Grid.make 10 100 8 = .ok t.grid ∧ u.grid = t.grid ∧ u.zone = t.zone ∧
      (t.epsg = 32633 ∧ u.epsg = 32733) ∧ (t.falseNorthing = 0 ∧ u.falseNorthing = 10000000) ∧
      (∀ row col : ℝ, t.positionOf row col = u.positionOf (row - 100) col) ∧
      t.rasterCenters ∩ u.rasterCenters = t.centers (Ico 100 116) (Ico 0 116) ∧
      t.rasterCenters ∩ u.rasterCenters = u.centers (Ico 0 16) (Ico 0 116) := by
  intro t u
  have hmake : Grid.make 10 100 8 = .ok t.grid :=
    Grid.make_eq_ok_iff.2 ⟨by decide, ⟨rfl, by norm_num⟩, by decide, rfl⟩
  obtain ⟨hposition, -, -, hsouth⟩ := tiles_form_mosaic (t := t) (u := u) hmake rfl rfl
  obtain ⟨-, hlast, hfirst, -⟩ := hsouth ⟨rfl, rfl⟩
  refine ⟨hmake, rfl, rfl, ⟨rfl, rfl⟩, ⟨?_, ?_⟩, fun row col => ?_, hlast, hfirst⟩
  · rw [falseNorthing_real, if_neg (by decide)]
  · rw [falseNorthing_real, if_pos (by decide)]
  · rw [hposition]
    norm_num [t, u]
    rfl

end Tile
end UtmTiles
