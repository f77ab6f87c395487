import UtmTiles.Proofs.Coverage.Estimate
import UtmTiles.Proofs.Coverage.Search
import UtmTiles.Proofs.Coverage.Walk
import UtmTiles.Proofs.Tile.Place
import UtmTiles.Proofs.Utm.Bands

/-!
# Coverage and lookup

The tile of a position need not be among the tiles that cover a rectangle around the position. Its
zone always is among those that are gone through. What decides is the walk in this zone
(`Coverage.Finds`): the range it starts with must hold the tile's cell, and the visits on the way to
the cell must not give it up.
-/

namespace UtmTiles

/-! ## The walk that finds a site -/

namespace Coverage

variable {α : Type} [Elementary α]

/-- The walk for the polygons' part in the zone of a site starts with a range that holds the site's
cell, and the visits on the way to the cell report it. -/
def Finds (step : α) (polygons : MultiPolygon α) (site : Site) : Prop :=
  ∃ box area range, MultiPolygon.box? polygons = some box ∧
    ZoneArea.of? (partInBand polygons box site.zone) site.zone step = some area ∧
    area.range? = some range ∧ range.Holds site.cell ∧ area.tests.Reports range site.cell

theorem eq_of_zoneArea {polygons : MultiPolygon α} {zone : Nat} {step : α} {area : ZoneArea α}
    (h : ZoneArea.of? polygons zone step = some area) : area.zone = zone ∧ area.step = step := by
  unfold ZoneArea.of? at h
  cases hbox : MultiPolygon.box? polygons with
  | none =>
    rw [hbox] at h
    cases h
  | some box =>
    rw [hbox] at h
    cases h
    exact ⟨rfl, rfl⟩

/-- The walk through the part of a shape in a zone, step by step. -/
theorem zoneWalk_eq_some {polygons : MultiPolygon α} {zone : Nat} {step : α} {w : ZoneWalk α} :
    ZoneWalk.of? polygons zone step = some w ↔ ∃ area range,
      ZoneArea.of? polygons zone step = some area ∧ area.range? = some range ∧
        w = ⟨area, Walk.start range⟩ := by
  unfold ZoneWalk.of?
  cases ZoneArea.of? polygons zone step with
  | none => simp
  | some area => cases hrange : area.range? <;> simp [hrange, eq_comm]

/-- The zone's walk, step by step. -/
theorem walkOf_eq_some {polygons : MultiPolygon α} {zone : Nat} {step : α} {w : ZoneWalk α} :
    ((Sweep.of? polygons).bind fun sweep => sweep.walkIn? step zone) = some w ↔
      ∃ box, MultiPolygon.box? polygons = some box ∧
        ZoneWalk.of? (partInBand polygons box zone) zone step = some w := by
  unfold Sweep.of? Sweep.walkIn?
  cases MultiPolygon.box? polygons <;> simp

theorem mem_left_start {area : ZoneArea α} {range : CellRange} {site : Site} :
    site ∈ (ZoneWalk.mk area (Walk.start range)).left ↔
      site.zone = area.zone ∧ range.Holds site.cell ∧ area.tests.Reports range site.cell := by
  simp only [ZoneWalk.left, Walk.left_start, List.mem_map, RangeTests.mem_found_singleton]
  constructor
  · rintro ⟨cell, hcell, rfl⟩
    exact ⟨rfl, hcell⟩
  · rintro ⟨hzone, hcell⟩
    exact ⟨site.cell, hcell, by rw [← hzone]⟩

theorem mem_sitesIn {step : α} {polygons : MultiPolygon α} {zone : Nat} {site : Site} :
    site ∈ sitesIn step polygons zone ↔ site.zone = zone ∧ Finds step polygons site := by
  -- a walk gives sites of its own zone only
  have hwalk : site ∈ sitesIn step polygons zone ↔
      ∃ w, ((Sweep.of? polygons).bind fun sweep => sweep.walkIn? step zone) = some w ∧
        site ∈ w.left := by
    unfold sitesIn
    cases (Sweep.of? polygons).bind fun sweep => sweep.walkIn? step zone <;> simp
  rw [hwalk]
  simp only [walkOf_eq_some, zoneWalk_eq_some]
  constructor
  · rintro ⟨_, ⟨box, hbox, area, range, harea, hrange, rfl⟩, hsite⟩
    obtain ⟨hzone, hholds, hreports⟩ := mem_left_start.1 hsite
    rw [(eq_of_zoneArea harea).1] at hzone
    subst hzone
    exact ⟨rfl, box, area, range, hbox, harea, hrange, hholds, hreports⟩
  · rintro ⟨rfl, box, area, range, hbox, harea, hrange, hholds, hreports⟩
    exact ⟨_, ⟨box, hbox, area, range, harea, hrange, rfl⟩,
      mem_left_start.2 ⟨(eq_of_zoneArea harea).1.symm, hholds, hreports⟩⟩

/-- The sites of some polygons are those that are found in the zones which are gone through. -/
theorem mem_sitesOf {step : α} {polygons : MultiPolygon α} {site : Site} :
    site ∈ sitesOf step polygons ↔ site.zone ∈ zonesOf polygons ∧ Finds step polygons site := by
  rw [sitesOf_eq, List.mem_flatMap]
  simp only [mem_sitesIn]
  constructor
  · rintro ⟨zone, hzone, rfl, hfinds⟩
    exact ⟨hzone, hfinds⟩
  · rintro ⟨hzone, hfinds⟩
    exact ⟨site.zone, hzone, rfl, hfinds⟩

end Coverage

open Coverage Binary64

/-- The tiles that cover a shape are those that the zones' walks find. -/
theorem Grid.mem_coverage_iff {α : Type} [Elementary α] {g : Grid α}
    {shape : List (MultiPolygon α)} {t : Tile α} :
    t ∈ (g.coverage shape).toList ↔ t.grid = g ∧ ∃ polygons ∈ shape,
      t.zone ∈ zonesOf polygons ∧ Finds g.step polygons ⟨t.zone, ⟨t.ti, t.tj⟩⟩ := by
  rw [mem_coverage]
  simp only [mem_sitesOf]
  constructor
  · rintro ⟨polygons, hpolygons, ⟨zone, ti, tj⟩, hsite, rfl⟩
    exact ⟨rfl, polygons, hpolygons, hsite⟩
  · rintro ⟨rfl, polygons, hpolygons, hsite⟩
    exact ⟨polygons, hpolygons, ⟨t.zone, ⟨t.ti, t.tj⟩⟩, hsite, rfl⟩

/-! ## Rectangles -/

section Rectangles

variable {b : Box Float}

/-- The box has a width and a height and lies on the globe. -/
structure Box.IsOnGlobe (b : Box Float) : Prop where
  west : Zone.HasLon b.minX
  east : Zone.HasLon b.maxX
  south : Zone.HasLat b.minY
  north : Zone.HasLat b.maxY
  width : b.minX < b.maxX
  height : b.minY < b.maxY

/-- The ring along the edges of a box. -/
theorem polygon_eq (h : b.IsOnGlobe) : b.polygon = ⟨b.corners ++ [⟨b.maxX, b.minY⟩], []⟩ := by
  have hcorners : Box.ofCorners ⟨b.minX, b.minY⟩ ⟨b.maxX, b.maxY⟩ = b := by
    simp only [Box.ofCorners, h.width, h.height, if_true]
  have hopen : Point.same (⟨b.maxX, b.minY⟩ : Point Float) ⟨b.minX, b.minY⟩ = false := by
    have hapart : ¬ b.maxX ≤ b.minX :=
      not_le_of_lt (Zone.hasLon_iff.1 h.west).1 (Zone.hasLon_iff.1 h.east).1 h.width
    simp only [Point.same, Scalar.same, hapart, false_and, decide_false, Bool.false_and]
  unfold Box.polygon Polygon.ofRings
  rw [hcorners]
  simp only [Box.corners, Ring.closed, List.getLast?_cons_cons, List.getLast?_singleton, hopen]
  rfl

/-- The box around a rectangle is the rectangle. -/
theorem box?_polygon (h : b.IsOnGlobe) : MultiPolygon.box? [b.polygon] = some b := by
  have hwest := (Zone.hasLon_iff.1 h.west).1
  have heast := (Zone.hasLon_iff.1 h.east).1
  have hsouth := (Zone.hasLat_iff.1 h.south).1
  have hnorth := (Zone.hasLat_iff.1 h.north).1
  have hwidth := not_lt_of_le hwest heast (le_of_lt h.width)
  have hheight := not_lt_of_le hsouth hnorth (le_of_lt h.height)
  rw [polygon_eq h]
  simp only [MultiPolygon.box?, List.flatMap_cons, List.flatMap_nil, List.append_nil, Box.corners,
    List.cons_append, List.nil_append, Box.around?, List.foldl_cons, List.foldl_nil,
    Box.around?.widen,
    h.width, h.height, hwidth, hheight, not_lt_self hwest, not_lt_self heast, not_lt_self hsouth,
    not_lt_self hnorth, if_true, if_false]

/-- A rectangle on the globe comes down to one polygon. -/
theorem normalize_rectangle (h : b.IsOnGlobe) :
    (Shape.figure (.rectangle ⟨b.minX, b.minY⟩ ⟨b.maxX, b.maxY⟩)).normalize =
      .ok [[b.polygon]] := by
  have hcheck : Shape.checkOnGlobe [b.polygon] = .ok () := by
    have hwest := not_lt_of_le rfl (Zone.hasLon_iff.1 h.west).1 h.west.1
    have heast := not_lt_of_le (Zone.hasLon_iff.1 h.east).1 rfl h.east.2
    have hsouth := not_lt_of_le rfl (Zone.hasLat_iff.1 h.south).1 h.south.1
    have hnorth := not_lt_of_le (Zone.hasLat_iff.1 h.north).1 rfl h.north.2
    rw [Shape.checkOnGlobe, box?_polygon h]
    exact if_neg (not_or.2 ⟨hwest, not_or.2 ⟨heast, not_or.2 ⟨hsouth, hnorth⟩⟩⟩)
  exact Shape.normalize_eq_ok_iff.2 ⟨rfl, List.forall_mem_singleton.2 hcheck⟩

theorem Grid.tilesOfShape_rectangle (g : Grid Float) (h : b.IsOnGlobe) :
    g.tilesOfShape (.figure (.rectangle ⟨b.minX, b.minY⟩ ⟨b.maxX, b.maxY⟩)) =
      .ok (g.coverage [[b.polygon]]) :=
  tilesOfShape_eq_ok_iff.2 ⟨_, _, normalize_rectangle h, estimate?_singleton _, rfl⟩

/-- The zones of some polygons are those from the western to the eastern band of their box. -/
theorem mem_zonesOf {polygons : MultiPolygon Float} (h : MultiPolygon.box? polygons = some b)
    {zone : Nat} : zone ∈ zonesOf polygons ↔
      (max (bandOf b.minX) 1).toNat ≤ zone ∧ zone ≤ (min (bandOf b.maxX) 60).toNat := by
  unfold zonesOf Sweep.of?
  rw [h]
  simp only [Option.bind_eq_bind, Option.bind_some, Option.pure_def, Option.elim_some, Sweep.zones,
    List.mem_range'_1]
  omega

/-- A longitude between those of some polygons is a longitude, and its zone is one of the
polygons' zones. -/
theorem numberOf_mem_zonesOf {polygons : MultiPolygon Float}
    (hpolygons : MultiPolygon.box? polygons = some b) (h : b.IsOnGlobe) {lon : Float}
    (hwest : b.minX < lon) (heast : lon < b.maxX) :
    Zone.HasLon lon ∧ Zone.numberOf lon ∈ zonesOf polygons := by
  have hlon : Zone.HasLon lon := between_of_lt_of_lt rfl rfl h.west h.east hwest heast
  have hleft := bandOf_mono h.west hlon (le_of_lt hwest)
  have hright := bandOf_mono hlon h.east (le_of_lt heast)
  -- bands are cut off at 1 and 60, so the first and the last one must be on the right side of these
  have hfirst := bandOf_le_sixty h.west hlon h.east hwest heast
  have hlast := one_le_bandOf h.east
  have hnumber : Zone.numberOf lon = (min (max (bandOf lon) 1) 60).toNat := by
    rw [bandOf, Int.add_comm]
    rfl
  rw [mem_zonesOf hpolygons, hnumber]
  exact ⟨hlon, by omega, by omega⟩

end Rectangles

/-- The tile of a position strictly inside a rectangle exists, and the rectangle has a coverage. The
tile belongs to it exactly if the walk for the rectangle's part in the tile's zone starts with a
range that holds the tile's cell and reports the cell on its visits. -/
theorem Grid.tileAt_mem_tilesOfShape_iff {g : Grid Float} {b : Box Float} (hbox : b.IsOnGlobe)
    {lon lat : Float} (hlon : b.minX < lon ∧ lon < b.maxX) (hlat : b.minY < lat ∧ lat < b.maxY) :
    ∃ t tiles, g.tileAt lon lat = .ok t ∧
      g.tilesOfShape (.figure (.rectangle ⟨b.minX, b.minY⟩ ⟨b.maxX, b.maxY⟩)) = .ok tiles ∧
      (t ∈ tiles.toList ↔ Finds g.step [b.polygon] ⟨t.zone, ⟨t.ti, t.tj⟩⟩) := by
  obtain ⟨hasLon, hzone⟩ := numberOf_mem_zonesOf (box?_polygon hbox) hbox hlon.1 hlon.2
  have hasLat : Zone.HasLat lat :=
    between_of_lt_of_lt rfl rfl hbox.south hbox.north hlat.1 hlat.2
  have hfinite : Scalar.isFinite lon = true := (Zone.hasLon_iff.1 hasLon).1
  have htile := (Grid.tileAt_eq_ok_iff (g := g)).2 ⟨hasLon, hfinite, hasLat, rfl⟩
  refine ⟨_, _, htile, g.tilesOfShape_rectangle hbox, ?_⟩
  rw [Grid.mem_coverage_iff]
  constructor
  · rintro ⟨-, polygons, hpolygons, -, hfinds⟩
    rw [List.mem_singleton.1 hpolygons] at hfinds
    exact hfinds
  · exact fun hfinds => ⟨rfl, _, List.mem_singleton_self _, hzone, hfinds⟩

/-- A position in the middle of a rectangle north of the equator. -/
theorem Grid.tileAt_mem_tilesOfShape_iff_north :
    let g : Grid Float := ⟨100.0, 10000, 0⟩
    let b : Box Float := ⟨0.5, 45.14, 5.5, 45.141⟩
    b.IsOnGlobe ∧ (b.minX < 3.0 ∧ 3.0 < b.maxX) ∧ (b.minY < 45.1405 ∧ 45.1405 < b.maxY) ∧
      ∃ t tiles, g.tileAt 3.0 45.1405 = .ok t ∧
        g.tilesOfShape (.figure (.rectangle ⟨b.minX, b.minY⟩ ⟨b.maxX, b.maxY⟩)) = .ok tiles ∧
        (t ∈ tiles.toList ↔ Finds g.step [b.polygon] ⟨t.zone, ⟨t.ti, t.tj⟩⟩) := by
  intro g b
  have hbox : b.IsOnGlobe :=
    ⟨by decide, by decide, by decide, by decide, by decide, by decide⟩
  have hlon : b.minX < 3.0 ∧ 3.0 < b.maxX := by decide
  have hlat : b.minY < 45.1405 ∧ 45.1405 < b.maxY := by decide
  exact ⟨hbox, hlon, hlat, Grid.tileAt_mem_tilesOfShape_iff hbox hlon hlat⟩

/-! ## Steps without bound -/

/-- The bounds of a walk's range in the row are quotients by the step. -/
theorem ZoneArea.range?_columns {α : Type} [Elementary α] {area : ZoneArea α} {range : CellRange}
    (h : area.range? = some range) : ∃ west east : α,
      range.west = Scalar.floorIndex (west / area.step) ∧
        range.east = Scalar.ceilIndex (east / area.step) := by
  obtain ⟨box, -, rfl⟩ := Option.map_eq_some_iff.1 h
  exact ⟨_, _, rfl, rfl⟩

/-- A grid whose step is too large for a double covers no shape with any tiles. -/
theorem Grid.toList_coverage_of_isInf {g : Grid Float} (h : g.step.isInf = true)
    (shape : List (MultiPolygon Float)) : (g.coverage shape).toList = [] := by
  refine List.eq_nil_iff_forall_not_mem.2 fun t ht => ?_
  obtain ⟨-, polygons, -, -, box, area, range, -, harea, hrange, hholds, -⟩ :=
    Grid.mem_coverage_iff.1 ht
  obtain ⟨west, east, hwest, heast⟩ := ZoneArea.range?_columns hrange
  rw [(eq_of_zoneArea harea).2] at hwest heast
  -- both bounds of the columns are 0, which leaves no column
  rw [floorIndex_div_of_isInf west h] at hwest
  rw [ceilIndex_div_of_isInf east h] at heast
  have hcolumn : range.west ≤ t.ti ∧ t.ti < range.east := ⟨hholds.1, hholds.2.1⟩
  omega

example : (Grid.step ⟨1e308, 100, 0⟩ : Float).isInf = true := by decide +kernel

end UtmTiles
