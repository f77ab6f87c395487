import UtmTiles.Proofs.Coverage.Lookup
import UtmTiles.Proofs.Key.RoundTrip
import UtmTiles.Proofs.Tile.Subtiles

/-!
# Tiles that can be reached

A tile comes from a key, a lookup or a coverage, or it is cut from another tile or assigned to its
cell (`Tile.Reachable`). Every one of these operations gives tiles with numbers in their ranges
(`Tile.IsValid`), so that all of them do, after any number of operations, and can be read back from
their keys.
-/

namespace UtmTiles

open Binary64

/-! ## Grids -/

namespace Grid

/-- The numbers of a grid make sense. -/
structure IsValid (g : Grid Float) : Prop where
  tilesize : 1 ≤ g.tilesize
  resolution : IsResolution g.resolution
  raster : g.rasterSize ≤ 4294967295

theorem isValid_of_make {resolution : Float} {tilesize pad : ℕ} {g : Grid Float}
    (h : make resolution tilesize pad = .ok g) : g.IsValid := by
  obtain ⟨htilesize, hresolution, hraster, rfl⟩ := make_eq_ok_iff.1 h
  exact ⟨htilesize, hresolution, hraster⟩

theorem IsValid.make_eq {g : Grid Float} (h : g.IsValid) :
    make g.resolution g.tilesize g.pad = .ok g :=
  make_eq_ok_iff.2 ⟨h.tilesize, h.resolution, h.raster, rfl⟩

end Grid

/-! ## Indices -/

/-- Whatever a double is, the index that it stands for is one. -/
theorem index_bounds (whole : Parts → ℤ) (x : Float) :
    -2 ^ 63 ≤ index whole x ∧ index whole x ≤ 2 ^ 63 - 1 := by
  unfold index
  split
  · exact ⟨minIndex_le_clampIndex _, clampIndex_le_maxIndex _⟩
  · split
    · decide
    · split
      · decide
      · decide

theorem floorIndex_bounds (x : Float) :
    -2 ^ 63 ≤ Scalar.floorIndex x ∧ Scalar.floorIndex x ≤ 2 ^ 63 - 1 :=
  index_bounds Parts.floor x

theorem ceilIndex_bounds (x : Float) :
    -2 ^ 63 ≤ Scalar.ceilIndex x ∧ Scalar.ceilIndex x ≤ 2 ^ 63 - 1 :=
  index_bounds Parts.ceil x

/-- The cells of a walk's range have indices. -/
theorem ZoneArea.range?_bounds {area : ZoneArea Float} {range : CellRange}
    (h : area.range? = some range) {c : Cell} (hc : range.Holds c) :
    (-2 ^ 63 ≤ c.ti ∧ c.ti ≤ 2 ^ 63 - 1) ∧ -2 ^ 63 ≤ c.tj ∧ c.tj ≤ 2 ^ 63 - 1 := by
  obtain ⟨box, -, rfl⟩ := Option.map_eq_some_iff.1 h
  obtain ⟨hwest, heast, hsouth, hnorth⟩ := hc
  exact ⟨⟨(floorIndex_bounds _).1.trans hwest, heast.le.trans (ceilIndex_bounds _).2⟩,
    (floorIndex_bounds _).1.trans hsouth, hnorth.le.trans (ceilIndex_bounds _).2⟩

namespace Tile

/-- The numbers of a tile lie in their ranges. -/
structure IsValid (t : Tile Float) : Prop where
  grid : t.grid.IsValid
  zone : 1 ≤ t.zone ∧ t.zone ≤ 60
  ti : -2 ^ 63 ≤ t.ti ∧ t.ti ≤ 2 ^ 63 - 1
  tj : -2 ^ 63 ≤ t.tj ∧ t.tj ≤ 2 ^ 63 - 1

/-! ## What each operation gives -/

theorem isValid_ofText {text : String} {t : Tile Float} (h : ofText text = .ok t) : t.IsValid := by
  obtain ⟨key, hkey, ht⟩ := bind_eq_ok_iff.1 h
  obtain ⟨grid, hgrid, htile⟩ := bind_eq_ok_iff.1 ht
  obtain ⟨f, -, htexts⟩ := TileKey.read_eq_ok_iff.1 (mapError_eq_ok_iff.1 hkey)
  cases htile
  have hzone := htexts.zone.2
  exact ⟨Grid.isValid_of_make hgrid, by dsimp only; omega, htexts.ti.2, htexts.tj.2⟩

theorem isValid_tileAt {g : Grid Float} (hg : g.IsValid) {lon lat : Float} {t : Tile Float}
    (h : g.tileAt lon lat = .ok t) : t.IsValid := by
  obtain ⟨-, -, -, rfl⟩ := Grid.tileAt_eq_ok_iff.1 h
  refine ⟨hg, ?_, floorIndex_bounds _, floorIndex_bounds _⟩
  unfold Zone.numberOf
  dsimp only
  omega

theorem isValid_of_mem_coverage {g : Grid Float} (hg : g.IsValid)
    {shape : List (MultiPolygon Float)} {t : Tile Float} (h : t ∈ (g.coverage shape).toList) :
    t.IsValid := by
  obtain ⟨rfl, polygons, -, hzone, box, area, range, hbox, -, hrange, hholds, -⟩ :=
    Grid.mem_coverage_iff.1 h
  obtain ⟨hti, htj⟩ := ZoneArea.range?_bounds hrange hholds
  obtain ⟨hfirst, hlast⟩ := (mem_zonesOf hbox).1 hzone
  exact ⟨hg, by omega, hti, htj⟩

theorem isValid_subdividedGrid {t : Tile Float} {ratio : ℕ} {resolution : Option Float}
    {pad : Option ℕ} {g : Grid Float} (h : t.subdividedGrid ratio resolution pad = .ok g) :
    g.IsValid := by
  simp only [subdividedGrid] at h
  split_ifs at h
  exact Grid.isValid_of_make h

theorem isValid_of_mem_subtiles {t : Tile Float} (ht : t.IsValid) {ratio : ℕ}
    {resolution : Option Float} {pad : Option ℕ} {s : Subtiles Float}
    (h : t.subtiles ratio resolution pad = .ok s) {u : Tile Float} (hu : u ∈ s.toList) :
    u.IsValid := by
  obtain ⟨child, hchild, hdivisible, rfl⟩ := subtiles_eq_ok_iff.1 h
  obtain ⟨k, hk⟩ := List.mem_iff_getElem?.1 hu
  obtain ⟨-, hgrid, hzone, -⟩ := getElem?_subdivision.1 hk
  obtain ⟨hti, htj⟩ := hdivisible.subtile_bounds hk
  exact ⟨hgrid ▸ isValid_subdividedGrid hchild, hzone ▸ ht.zone, hti, htj⟩

theorem isValid_subtileAt {t : Tile Float} (ht : t.IsValid) {ratio row col : ℕ}
    {resolution : Option Float} {pad : Option ℕ} {u : Tile Float}
    (h : t.subtileAt ratio row col resolution pad = .ok u) : u.IsValid := by
  obtain ⟨grid, hgrid, h⟩ := bind_eq_ok_iff.1 h
  split_ifs at h with hinside
  obtain ⟨⟨ti, tj⟩, hplace, h⟩ := bind_eq_ok_iff.1 h
  cases h
  obtain ⟨hti, htj⟩ := upperLeft_bounds hplace
  exact ⟨isValid_subdividedGrid hgrid, ht.zone, by dsimp only; omega, by dsimp only; omega⟩

theorem isValid_assign {t : Tile Float} (ht : t.IsValid) {resolution : Option Float}
    {tilesize pad : Option ℕ} {u : Tile Float} (h : t.assign resolution tilesize pad = .ok u) :
    u.IsValid := by
  obtain ⟨grid, hgrid, h⟩ := bind_eq_ok_iff.1 h
  split_ifs at h
  cases h
  exact ⟨Grid.isValid_of_make hgrid, ht.zone, ht.ti, ht.tj⟩

/-! ## What any number of operations gives -/

/-- Tiles that any number of operations give. -/
inductive Reachable : Tile Float → Prop
  | ofText {text : String} {t : Tile Float} (h : ofText text = .ok t) : Reachable t
  | tileAt {resolution : Float} {tilesize pad : ℕ} {g : Grid Float} {lon lat : Float}
      {t : Tile Float} (hg : Grid.make resolution tilesize pad = .ok g)
      (h : g.tileAt lon lat = .ok t) : Reachable t
  | tilesOfShape {resolution : Float} {tilesize pad : ℕ} {g : Grid Float} {shape : Shape}
      {tiles : Sequence (Tile Float)} {t : Tile Float}
      (hg : Grid.make resolution tilesize pad = .ok g) (h : g.tilesOfShape shape = .ok tiles)
      (ht : t ∈ tiles.toList) : Reachable t
  | subtiles {t u : Tile Float} {ratio : ℕ} {resolution : Option Float} {pad : Option ℕ}
      {s : Subtiles Float} (ht : Reachable t) (h : t.subtiles ratio resolution pad = .ok s)
      (hu : u ∈ s.toList) : Reachable u
  | subtileAt {t u : Tile Float} {ratio row col : ℕ} {resolution : Option Float} {pad : Option ℕ}
      (ht : Reachable t) (h : t.subtileAt ratio row col resolution pad = .ok u) : Reachable u
  | assign {t u : Tile Float} {resolution : Option Float} {tilesize pad : Option ℕ}
      (ht : Reachable t) (h : t.assign resolution tilesize pad = .ok u) : Reachable u

theorem Reachable.isValid {t : Tile Float} (h : t.Reachable) : t.IsValid := by
  induction h with
  | ofText h => exact isValid_ofText h
  | tileAt hg h => exact isValid_tileAt (Grid.isValid_of_make hg) h
  | tilesOfShape hg h ht =>
    obtain ⟨parts, n, -, -, rfl⟩ := Grid.tilesOfShape_eq_ok_iff.1 h
    exact isValid_of_mem_coverage (Grid.isValid_of_make hg) ht
  | subtiles _ h hu ih => exact isValid_of_mem_subtiles ih h hu
  | subtileAt _ h ih => exact isValid_subtileAt ih h
  | assign _ h ih => exact isValid_assign ih h

/-- A valid tile is read back from its key. -/
theorem ofText_toText {t : Tile Float} (h : t.IsValid) : ofText t.toText = .ok t := by
  have hsize : t.grid.tilesize + 2 * t.grid.pad ≤ 4294967295 := h.grid.raster
  have hkey : t.key.IsValid :=
    ⟨⟨h.grid.tilesize, by show t.grid.tilesize ≤ _; omega⟩, by show t.grid.pad ≤ _; omega,
      h.grid.resolution, h.zone, h.ti, h.tj⟩
  refine bind_eq_ok_iff.2 ⟨t.key, mapError_eq_ok_iff.2 (TileKey.read_toText hkey), ?_⟩
  exact bind_eq_ok_iff.2 ⟨t.grid, h.grid.make_eq, rfl⟩

/-- Every tile that is reached has numbers in their ranges and is read back from its key. -/
theorem Reachable.numbers_in_range {t : Tile Float} (h : t.Reachable) :
    (1 ≤ t.zone ∧ t.zone ≤ 60) ∧ 1 ≤ t.grid.tilesize ∧
      (t.grid.resolution.isFinite = true ∧ 0.0 < t.grid.resolution) ∧
      t.grid.tilesize + 2 * t.grid.pad ≤ 4294967295 ∧
      (-2 ^ 63 ≤ t.ti ∧ t.ti ≤ 2 ^ 63 - 1) ∧ (-2 ^ 63 ≤ t.tj ∧ t.tj ≤ 2 ^ 63 - 1) ∧
      Tile.ofText t.toText = .ok t := by
  have hvalid := h.isValid
  exact ⟨hvalid.zone, hvalid.grid.tilesize, hvalid.grid.resolution, hvalid.grid.raster, hvalid.ti,
    hvalid.tj, ofText_toText hvalid⟩

/-- A quarter, with pixels of half the size, of a tile that was read from its key. -/
theorem numbers_in_range_of_quarter :
    ∃ u : Tile Float, subtileAt ⟨⟨30.0, 2048, 16⟩, 15, 3, 80⟩ 2 0 1 (some 15.0) none = .ok u ∧
      u.Reachable ∧ u.grid.tilesize + 2 * u.grid.pad ≤ 4294967295 ∧ Tile.ofText u.toText = .ok u := by
  have hvalid : IsValid ⟨⟨30.0, 2048, 16⟩, 15, 3, 80⟩ :=
    ⟨⟨by decide, by decide, by decide⟩, by decide, by decide, by decide⟩
  have hok : (subtileAt (⟨⟨30.0, 2048, 16⟩, 15, 3, 80⟩ : Tile Float) 2 0 1 (some 15.0) none).isOk =
      true := by
    decide +kernel
  cases hquarter : subtileAt (⟨⟨30.0, 2048, 16⟩, 15, 3, 80⟩ : Tile Float) 2 0 1 (some 15.0) none with
  | error e =>
    rw [hquarter] at hok
    cases hok
  | ok u =>
    have hreachable : u.Reachable := .subtileAt (.ofText (ofText_toText hvalid)) hquarter
    obtain ⟨-, -, -, hraster, -, -, hread⟩ := Reachable.numbers_in_range hreachable
    exact ⟨u, rfl, hreachable, hraster, hread⟩

end Tile
end UtmTiles
