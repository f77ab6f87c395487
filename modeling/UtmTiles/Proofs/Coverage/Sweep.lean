import UtmTiles.Proofs.Utm.Longitude
import UtmTiles.Proofs.Coverage.Lookup

/-!
# Sweeping over the zones of a shape

A sweep goes through the zones of some polygons from west to east. In exact arithmetic, these are the
zones from that of the polygons' western edge to that of their eastern edge, and they are the zones
whose bands the polygons' longitudes need (`Coverage.Sweep.goes_through_bands`). A zone is skipped
only if the polygons have no points in its band (`Coverage.zoneWalk_eq_none_iff`).
-/

namespace UtmTiles

/-! ## Zones without points -/

theorem Box.around?_eq_none_iff {α : Type} [Scalar α] {points : List (Point α)} :
    Box.around? points = none ↔ points = [] := by
  cases points with
  | nil => exact ⟨fun _ => rfl, fun _ => rfl⟩
  | cons p rest => simp only [Box.around?, reduceCtorEq]

namespace Coverage

section Points

variable {α : Type} [Elementary α]

/-- Projected polygons have a box if the polygons themselves have one. -/
theorem box?_projected_eq_none_iff {polygons : MultiPolygon α} {zone : ℕ} {step : α}
    {area : ZoneArea α} (h : ZoneArea.of? polygons zone step = some area) :
    MultiPolygon.box? area.projected = none ↔ MultiPolygon.box? polygons = none := by
  obtain ⟨box, -, harea⟩ := Option.bind_eq_some_iff.1 h
  cases harea
  simp only [MultiPolygon.box?, Box.around?_eq_none_iff, List.flatMap_map, ZoneArea.project]
  rw [← List.map_flatMap, List.map_eq_nil_iff]

/-- There is a walk through a zone as soon as the polygons have points. -/
theorem zoneWalk_eq_none_iff {polygons : MultiPolygon α} {zone : ℕ} {step : α} :
    ZoneWalk.of? polygons zone step = none ↔ MultiPolygon.box? polygons = none := by
  constructor
  · intro hnone
    by_contra hbox
    obtain ⟨box, hbox⟩ := Option.ne_none_iff_exists'.1 hbox
    have harea : ∃ area, ZoneArea.of? polygons zone step = some area := by
      rw [ZoneArea.of?, hbox]
      exact ⟨_, rfl⟩
    obtain ⟨area, harea⟩ := harea
    have hprojected : MultiPolygon.box? area.projected ≠ none := by
      rw [Ne, box?_projected_eq_none_iff harea, hbox]
      exact Option.some_ne_none box
    obtain ⟨projected, hprojected⟩ := Option.ne_none_iff_exists'.1 hprojected
    have hwalk := zoneWalk_eq_some.2 ⟨area, _, harea, by rw [ZoneArea.range?, hprojected]; rfl, rfl⟩
    rw [hnone] at hwalk
    cases hwalk
  · intro hbox
    rw [ZoneWalk.of?, ZoneArea.of?, hbox]
    rfl

/-- The walk through a zone is one through the polygons' part in the zone. -/
theorem area_of_zoneWalk {polygons : MultiPolygon α} {zone : ℕ} {step : α} {w : ZoneWalk α}
    (h : ZoneWalk.of? polygons zone step = some w) :
    w.area.zone = zone ∧ w.area.polygons = polygons := by
  obtain ⟨area, range, harea, -, rfl⟩ := zoneWalk_eq_some.1 h
  obtain ⟨box, -, hbox⟩ := Option.bind_eq_some_iff.1 harea
  cases hbox
  exact ⟨rfl, rfl⟩

end Points

end Coverage

/-! ## Bands in exact arithmetic -/

namespace Zone

theorem west_real (zone : ℕ) : (west zone : ℝ) = 6 * zone - 186 := by
  have hwest : (186.0 : ℝ) = 186 := by norm_num
  rw [west, width_real, hwest, Scalar.ofInt_real, Int.cast_natCast, mul_comm]

theorem east_real (zone : ℕ) : (east zone : ℝ) = 6 * zone - 180 := by
  rw [east, west_real, width_real]
  ring

/-- The longitude lies in the band of a zone or on its edges. -/
def Holds (zone : ℕ) (lon : ℝ) : Prop := west zone ≤ lon ∧ lon ≤ east zone

theorem holds_iff {zone : ℕ} {lon : ℝ} :
    Holds zone lon ↔ 6 * (zone : ℝ) - 186 ≤ lon ∧ lon ≤ 6 * zone - 180 := by
  rw [Holds, west_real, east_real]

theorem holds_numberOf {lon : ℝ} (hlow : -180 ≤ lon) (hhigh : lon ≤ 180) :
    Holds (numberOf lon) lon := by
  obtain ⟨hwest, heast, -⟩ := numberOf_band hlow hhigh
  exact holds_iff.2 ⟨hwest, heast⟩

theorem numberOf_mono {lon east : ℝ} (h : lon ≤ east) : numberOf lon ≤ numberOf east := by
  have hfloor : ⌊(lon + 180) / 6⌋ ≤ ⌊(east + 180) / 6⌋ := Int.floor_le_floor (by linarith)
  rw [numberOf_real, numberOf_real]
  omega

/-- The zone of a position on the globe is that of its longitude. -/
theorem exists_ofPosition {lon lat : ℝ} (hlon : -180 ≤ lon ∧ lon ≤ 180)
    (hlat : -90 ≤ lat ∧ lat ≤ 90) :
    ∃ zone : Zone, ofPosition lon lat = .ok zone ∧ zone.number = numberOf lon := by
  refine ⟨_, ofPosition_real (hasLat_real.2 hlat) lon, ?_⟩
  rw [normalizeLon_of_hasLon (hasLon_real.2 hlon)]

end Zone

namespace Coverage

theorem bandOf_real (lon : ℝ) : bandOf lon = 1 + ⌊(lon + 180) / 6⌋ := by
  have hhalf : (180.0 : ℝ) = 180 := by norm_num
  rw [bandOf, Zone.width_real, hhalf, Scalar.floorIndex_real]

section Bands

variable {box : Box ℝ} {zone : ℕ}

/-- The bands from that of a western to that of an eastern longitude have longitudes in between. -/
theorem exists_lon_of_band {west east : ℝ} (hwest : -180 ≤ west) (hle : west ≤ east)
    (heast : east ≤ 180) (hfirst : Zone.numberOf west ≤ zone) (hlast : zone ≤ Zone.numberOf east) :
    ∃ lon, (west ≤ lon ∧ lon ≤ east) ∧ Zone.Holds zone lon := by
  have hfrom := (Zone.holds_iff.1 (Zone.holds_numberOf hwest (hle.trans heast))).2
  have hto := (Zone.holds_iff.1 (Zone.holds_numberOf (hwest.trans hle) heast)).1
  have hfirst' : (Zone.numberOf west : ℝ) ≤ zone := by exact_mod_cast hfirst
  have hlast' : (zone : ℝ) ≤ Zone.numberOf east := by exact_mod_cast hlast
  -- the western longitude, or the western edge of the band if that is further east
  rcases le_total (6 * (zone : ℝ) - 186) west with hinside | hfurther
  · exact ⟨west, ⟨le_rfl, hle⟩, Zone.holds_iff.2 ⟨hinside, by linarith⟩⟩
  · exact ⟨6 * zone - 186, ⟨hfurther, by linarith⟩, Zone.holds_iff.2 ⟨le_rfl, by linarith⟩⟩

/-- A box lies in a band if all of its longitudes do. -/
theorem isInBand_iff (h : box.minX ≤ box.maxX) :
    IsInBand box zone ↔ ∀ lon, box.minX ≤ lon → lon ≤ box.maxX → Zone.Holds zone lon := by
  constructor
  · rintro ⟨hwest, heast⟩ lon hlow hhigh
    exact ⟨hwest.trans hlow, hhigh.trans heast⟩
  · intro hall
    exact ⟨(hall _ le_rfl h).1, (hall _ h le_rfl).2⟩

end Bands

namespace Sweep

/-- Between 180° west and 180° east, cutting off bands changes nothing. -/
theorem exists_sweep {polygons : MultiPolygon ℝ} {box : Box ℝ}
    (hbox : MultiPolygon.box? polygons = some box) (hwest : -180 ≤ box.minX)
    (hwidth : box.minX < box.maxX) (heast : box.maxX ≤ 180) :
    ∃ s : Sweep ℝ, of? polygons = some s ∧ s.polygons = polygons ∧ s.box = box ∧
      s.zones = List.range' (Zone.numberOf box.minX)
        (Zone.numberOf box.maxX + 1 - Zone.numberOf box.minX) := by
  have hfirst : (max (bandOf box.minX) 1).toNat = Zone.numberOf box.minX := by
    have hlast : ⌊(box.minX + 180) / 6⌋ < 60 := Int.floor_lt.2 (by push_cast; linarith)
    rw [bandOf_real, Zone.numberOf_real]
    omega
  have hlast : (min (bandOf box.maxX) 60).toNat = Zone.numberOf box.maxX := by
    have hfirst : 0 ≤ ⌊(box.maxX + 180) / 6⌋ := Int.floor_nonneg.2 (by linarith)
    rw [bandOf_real, Zone.numberOf_real]
    omega
  refine ⟨⟨polygons, box, (max (bandOf box.minX) 1).toNat, (min (bandOf box.maxX) 60).toNat⟩,
    ?_, rfl, rfl, ?_⟩
  · rw [of?, hbox]
    rfl
  · rw [zones, hfirst, hlast]

/-- In exact arithmetic, a sweep over some polygons goes through the zones from that of their
western to that of their eastern edge, once each and from west to east. All longitudes of the
polygons lie in the bands of these zones, and all of these bands are needed. -/
theorem goes_through_bands {polygons : MultiPolygon ℝ} {box : Box ℝ}
    (hbox : MultiPolygon.box? polygons = some box) (hwest : -180 ≤ box.minX)
    (hwidth : box.minX < box.maxX) (heast : box.maxX ≤ 180) (step : ℝ) :
    ∃ s : Sweep ℝ, of? polygons = some s ∧
      (∀ n, (producer step).ask s n = (s.zones.filterMap (s.walkIn? step))[n]?) ∧
      (∀ lat, -90 ≤ lat ∧ lat ≤ 90 → ∃ first last : Zone,
        Zone.ofPosition box.minX lat = .ok first ∧ Zone.ofPosition box.maxX lat = .ok last ∧
        s.zones = List.range' first.number (last.number + 1 - first.number) ∧
        ∀ zone, zone ∈ s.zones ↔ first.number ≤ zone ∧ zone ≤ last.number) ∧
      s.zones.Pairwise (· < ·) ∧ (∀ zone ∈ s.zones, 1 ≤ zone ∧ zone ≤ 60) ∧
      (∀ lon lat, box.minX ≤ lon ∧ lon ≤ box.maxX → -90 ≤ lat ∧ lat ≤ 90 →
        ∃ zone : Zone, Zone.ofPosition lon lat = .ok zone ∧
          zone.number ∈ s.zones ∧ Zone.Holds zone.number lon) ∧
      (∀ zone ∈ s.zones, ∃ lon, (box.minX ≤ lon ∧ lon ≤ box.maxX) ∧ Zone.Holds zone lon) ∧
      (∀ zone ∈ s.zones,
        ((∀ lon, box.minX ≤ lon → lon ≤ box.maxX → Zone.Holds zone lon) →
          partInBand polygons box zone = polygons) ∧
        ((∃ lon, (box.minX ≤ lon ∧ lon ≤ box.maxX) ∧ ¬ Zone.Holds zone lon) →
          partInBand polygons box zone = MultiPolygon.clip polygons (band zone)) ∧
        (s.walkIn? step zone = none ↔
          MultiPolygon.box? (partInBand polygons box zone) = none) ∧
        ∀ walk, s.walkIn? step zone = some walk →
          walk.area.zone = zone ∧ walk.area.polygons = partInBand polygons box zone) := by
  obtain ⟨s, hof, hpolygons, hsbox, hzones⟩ := exists_sweep hbox hwest hwidth heast
  have hmem (zone : ℕ) : zone ∈ s.zones ↔
      Zone.numberOf box.minX ≤ zone ∧ zone ≤ Zone.numberOf box.maxX := by
    rw [hzones, List.mem_range'_1]
    omega
  have hpart (zone : ℕ) : s.walkIn? step zone =
      ZoneWalk.of? (partInBand polygons box zone) zone step := by
    rw [walkIn?, hpolygons, hsbox]
  refine ⟨s, hof, fun n => ?_, ?_, ?_, fun zone hzone => ?_, ?_, fun zone hzone => ?_,
    fun zone hzone => ⟨fun hall => ?_, ?_, ?_, fun walk hwalk => ?_⟩⟩
  · exact Producer.ask_eq_getElem? _ _ _
  · intro lat hlat
    obtain ⟨first, hposition, hnumber⟩ := Zone.exists_ofPosition ⟨hwest, by linarith⟩ hlat
    obtain ⟨last, hposition', hnumber'⟩ := Zone.exists_ofPosition ⟨by linarith, heast⟩ hlat
    refine ⟨first, last, hposition, hposition', ?_⟩
    rw [hnumber, hnumber']
    exact ⟨hzones, hmem⟩
  · rw [hzones]
    exact List.pairwise_lt_range'
  · have hlower := Zone.numberOf_bounds box.minX
    have hupper := Zone.numberOf_bounds box.maxX
    have hbetween := (hmem zone).1 hzone
    omega
  · rintro lon lat ⟨hlow, hhigh⟩ hlat
    have hlon : -180 ≤ lon ∧ lon ≤ 180 := ⟨hwest.trans hlow, hhigh.trans heast⟩
    obtain ⟨zone, hposition, hnumber⟩ := Zone.exists_ofPosition hlon hlat
    refine ⟨zone, hposition, ?_⟩
    rw [hnumber]
    exact ⟨(hmem _).2 ⟨Zone.numberOf_mono hlow, Zone.numberOf_mono hhigh⟩,
      Zone.holds_numberOf hlon.1 hlon.2⟩
  · obtain ⟨hlower, hupper⟩ := (hmem zone).1 hzone
    exact exists_lon_of_band hwest hwidth.le heast hlower hupper
  · exact if_pos ((isInBand_iff hwidth.le).2 hall)
  · rintro ⟨lon, ⟨hlow, hhigh⟩, hout⟩
    exact if_neg fun hinside => hout ((isInBand_iff hwidth.le).1 hinside lon hlow hhigh)
  · rw [hpart]
    exact zoneWalk_eq_none_iff
  · rw [hpart] at hwalk
    exact area_of_zoneWalk hwalk

/-- A strip around the globe goes through all zones, and all of its longitudes lie in their bands. -/
theorem goes_through_bands_around_globe :
    let polygons : MultiPolygon ℝ :=
      [⟨[⟨180, 0⟩, ⟨180, 1⟩, ⟨-180, 1⟩, ⟨-180, 0⟩, ⟨180, 0⟩], []⟩]
    MultiPolygon.box? polygons = some ⟨-180, 0, 180, 1⟩ ∧
      ((-180 : ℝ) ≤ -180 ∧ (-180 : ℝ) < 180 ∧ (180 : ℝ) ≤ 180) ∧
      ∃ s : Sweep ℝ, of? polygons = some s ∧ s.zones = List.range' 1 60 := by
  intro polygons
  have hbox : MultiPolygon.box? polygons = some ⟨-180, 0, 180, 1⟩ := by
    norm_num [polygons, MultiPolygon.box?, Box.around?, Box.around?.widen]
  refine ⟨hbox, ⟨le_rfl, by norm_num, le_rfl⟩, ?_⟩
  obtain ⟨s, hof, -, hzones, -⟩ := goes_through_bands hbox le_rfl (by norm_num) le_rfl 1000
  obtain ⟨first, last, hfirst, hlast, hlist, -⟩ := hzones 0 (by norm_num)
  have hnumber {lon : ℝ} {zone : Zone} (hlon : -180 ≤ lon ∧ lon ≤ 180)
      (h : Zone.ofPosition lon 0 = .ok zone) : zone.number = Zone.numberOf lon := by
    obtain ⟨_, hposition, hnumber⟩ :=
      Zone.exists_ofPosition hlon (show -90 ≤ (0 : ℝ) ∧ (0 : ℝ) ≤ 90 by norm_num)
    rw [h] at hposition
    cases hposition
    exact hnumber
  have hone : first.number = 1 := by
    rw [hnumber (by norm_num) hfirst, Zone.numberOf_real]
    norm_num
  have hsixty : last.number = 60 := by
    rw [hnumber (by norm_num) hlast, Zone.numberOf_maxLon]
  rw [hone, hsixty] at hlist
  exact ⟨s, hof, hlist⟩

end Sweep
end Coverage
end UtmTiles
