import Mathlib.Tactic.Linarith
import Mathlib.Tactic.NormNum.OfScientific
import Mathlib.Tactic.Ring
import UtmTiles.Proofs.Scalar.Real
import UtmTiles.Utm.Zone

/-!
# Longitudes and their zones

Longitudes are wrapped into [-180, 180]. Only 180 and -180 are two names of one meridian there, so
that longitudes which differ by whole turns have one wrapped longitude, and one zone, except on that
meridian (`Zone.normalizeLon_add_turns`): 180 itself is in zone 60, and all of its other names are in
zone 1. All of this is about exact arithmetic.
-/

namespace UtmTiles
namespace Zone

/-! ## Numbers -/

theorem width_real : (width : ℝ) = 6 := by
  norm_num [width]

theorem centralMeridian_real (number : ℕ) : (centralMeridian number : ℝ) = 6 * number - 183 := by
  have hmeridian : (183.0 : ℝ) = 183 := by norm_num
  rw [centralMeridian, width_real, hmeridian, Scalar.ofInt_real, Int.cast_natCast, mul_comm]

theorem hasLon_real {lon : ℝ} : HasLon lon ↔ -180 ≤ lon ∧ lon ≤ 180 := by
  have hmax : (maxLon : ℝ) = 180 := by norm_num [maxLon]
  rw [HasLon, hmax]

theorem hasLat_real {lat : ℝ} : HasLat lat ↔ -90 ≤ lat ∧ lat ≤ 90 := by
  have hmax : (maxLat : ℝ) = 90 := by norm_num [maxLat]
  rw [HasLat, hmax]

/-! ## Zones of longitudes -/

variable {lon : ℝ}

theorem numberOf_real (lon : ℝ) :
    numberOf lon = (min (max (⌊(lon + 180) / 6⌋ + 1) 1) 60).toNat := by
  have hhalf : (180.0 : ℝ) = 180 := by norm_num
  rw [numberOf, width_real, hhalf, Scalar.floorIndex_real]

theorem numberOf_bounds (lon : ℝ) : 1 ≤ numberOf lon ∧ numberOf lon ≤ 60 := by
  rw [numberOf_real]
  omega

theorem numberOf_eq_floor (hlow : -180 ≤ lon) (hhigh : lon < 180) :
    (numberOf lon : ℤ) = ⌊(lon + 180) / 6⌋ + 1 := by
  have hfirst : 0 ≤ ⌊(lon + 180) / 6⌋ := Int.floor_nonneg.2 (by linarith)
  have hlast : ⌊(lon + 180) / 6⌋ < 60 := Int.floor_lt.2 (by push_cast; linarith)
  rw [numberOf_real]
  omega

theorem numberOf_maxLon : numberOf (180 : ℝ) = 60 := by
  have hfloor : ⌊((180 : ℝ) + 180) / 6⌋ = 60 := by norm_num
  rw [numberOf_real, hfloor]
  rfl

/-- A longitude lies in the band of its zone. Only 180 lies on the eastern edge. -/
theorem numberOf_band (hlow : -180 ≤ lon) (hhigh : lon ≤ 180) :
    6 * (numberOf lon : ℝ) - 186 ≤ lon ∧ lon ≤ 6 * numberOf lon - 180 ∧
      (lon = 6 * numberOf lon - 180 → lon = 180) := by
  rcases hhigh.eq_or_lt with rfl | hlt
  · rw [numberOf_maxLon]
    norm_num
  · have hnumber : (numberOf lon : ℝ) = ⌊(lon + 180) / 6⌋ + 1 := by
      exact_mod_cast numberOf_eq_floor hlow hlt
    have hfloor := Int.floor_le ((lon + 180) / 6)
    have hnext := Int.lt_floor_add_one ((lon + 180) / 6)
    rw [hnumber]
    refine ⟨by linarith, by linarith, ?_⟩
    intro hedge
    linarith

theorem meridianOf_numberOf (lon : ℝ) :
    meridianOf (numberOf lon) = .ok (6 * (numberOf lon : ℝ) - 183) := by
  obtain ⟨hfirst, hlast⟩ := numberOf_bounds lon
  rw [meridianOf, if_neg (by omega), centralMeridian_real]

/-! ## Wrapped longitudes -/

theorem normalizeLon_of_hasLon (h : HasLon lon) : normalizeLon lon = lon := if_pos h

/-- Longitudes that are wrapped lie in [-180, 180). -/
theorem normalizeLon_of_not_hasLon (h : ¬ HasLon lon) :
    normalizeLon lon = lon - 360 * ⌊(lon + 180) / 360⌋ ∧
      -180 ≤ normalizeLon lon ∧ normalizeLon lon < 180 := by
  have hhalf : (180.0 : ℝ) = 180 := by norm_num
  have hturn : (360.0 : ℝ) = 360 := by norm_num
  have hwrapped : normalizeLon lon = lon - 360 * ⌊(lon + 180) / 360⌋ := by
    have hwrap : Scalar.wrap (lon + 180) 360 = lon + 180 - 360 * ⌊(lon + 180) / 360⌋ := rfl
    rw [normalizeLon, if_neg h, hhalf, hturn, hwrap]
    ring
  have hfloor := Int.floor_le ((lon + 180) / 360)
  have hnext := Int.lt_floor_add_one ((lon + 180) / 360)
  rw [hwrapped]
  exact ⟨rfl, by linarith, by linarith⟩

theorem hasLon_normalizeLon (lon : ℝ) : HasLon (normalizeLon lon) := by
  by_cases h : HasLon lon
  · rwa [normalizeLon_of_hasLon h]
  · obtain ⟨-, hlow, hhigh⟩ := normalizeLon_of_not_hasLon h
    exact hasLon_real.2 ⟨hlow, hhigh.le⟩

theorem normalizeLon_normalizeLon (lon : ℝ) : normalizeLon (normalizeLon lon) = normalizeLon lon :=
  normalizeLon_of_hasLon (hasLon_normalizeLon lon)

theorem exists_normalizeLon_eq (lon : ℝ) : ∃ turns : ℤ, normalizeLon lon = lon + 360 * turns := by
  by_cases h : HasLon lon
  · exact ⟨0, by rw [normalizeLon_of_hasLon h, Int.cast_zero, mul_zero, add_zero]⟩
  · refine ⟨-⌊(lon + 180) / 360⌋, ?_⟩
    rw [(normalizeLon_of_not_hasLon h).1, Int.cast_neg, mul_neg, sub_eq_add_neg]

/-- Two longitudes in [-180, 180] that differ by whole turns are equal, or they are 180 and -180. -/
theorem eq_or_eq_maxLon {east : ℝ} (hlon : HasLon lon) (heast : HasLon east) {turns : ℤ}
    (h : east = lon + 360 * turns) :
    east = lon ∨ (lon = -180 ∧ east = 180) ∨ (lon = 180 ∧ east = -180) := by
  obtain ⟨hlow, hhigh⟩ := hasLon_real.1 hlon
  obtain ⟨hlow', hhigh'⟩ := hasLon_real.1 heast
  have hleast : -1 ≤ turns := by
    have : (-1 : ℝ) ≤ turns := by linarith
    exact_mod_cast this
  have hmost : turns ≤ 1 := by
    have : (turns : ℝ) ≤ 1 := by linarith
    exact_mod_cast this
  obtain rfl | rfl | rfl : turns = -1 ∨ turns = 0 ∨ turns = 1 := by omega
  · right; right
    push_cast at h
    constructor <;> linarith
  · left
    rw [h, Int.cast_zero, mul_zero, add_zero]
  · right; left
    push_cast at h
    constructor <;> linarith

/-- The longitude is one of the names of the meridian opposite to Greenwich. -/
def IsAntimeridian (lon : ℝ) : Prop := ∃ turns : ℤ, lon = 180 + 360 * turns

/-- Off the antimeridian, longitudes that differ by whole turns have one wrapped longitude. -/
theorem normalizeLon_add_turns (h : ¬ IsAntimeridian lon) (turns : ℤ) :
    normalizeLon (lon + 360 * turns) = normalizeLon lon := by
  obtain ⟨k, hk⟩ := exists_normalizeLon_eq lon
  obtain ⟨l, hl⟩ := exists_normalizeLon_eq (lon + 360 * turns)
  have hdifference : normalizeLon (lon + 360 * turns) =
      normalizeLon lon + 360 * ((turns + l - k : ℤ) : ℝ) := by
    rw [hl, hk]
    push_cast
    ring
  rcases eq_or_eq_maxLon (hasLon_normalizeLon lon) (hasLon_normalizeLon _) hdifference with
    heq | ⟨hwest, -⟩ | ⟨heast, -⟩
  · exact heq
  · refine absurd ⟨-1 - k, ?_⟩ h
    push_cast
    linarith
  · refine absurd ⟨-k, ?_⟩ h
    push_cast
    linarith

/-- On the antimeridian, only 180 keeps its name. -/
theorem normalizeLon_of_isAntimeridian (h : IsAntimeridian lon) (hne : lon ≠ 180) :
    normalizeLon lon = -180 := by
  obtain ⟨turns, rfl⟩ := h
  by_cases hlon : HasLon (180 + 360 * (turns : ℝ))
  · rw [normalizeLon_of_hasLon hlon]
    rcases eq_or_eq_maxLon (hasLon_real.2 ⟨by norm_num, le_rfl⟩) hlon rfl with
      heq | ⟨hwest, -⟩ | ⟨-, heast⟩
    · exact absurd heq hne
    · norm_num at hwest
    · exact heast
  · have hfloor : ⌊(180 + 360 * (turns : ℝ) + 180) / 360⌋ = turns + 1 := by
      rw [show (180 + 360 * (turns : ℝ) + 180) / 360 = ((turns + 1 : ℤ) : ℝ) by push_cast; ring,
        Int.floor_intCast]
    rw [(normalizeLon_of_not_hasLon hlon).1, hfloor]
    push_cast
    ring

/-! ## Zones of positions -/

/-- A position on the globe has the zone of its wrapped longitude. -/
theorem ofPosition_real {lat : ℝ} (hlat : HasLat lat) (lon : ℝ) :
    ofPosition lon lat = .ok {
      number := numberOf (normalizeLon lon)
      hemisphere := if (0.0 : ℝ) ≤ lat then .north else .south
      polar := decide (polarLatitude < Scalar.abs lat) } := by
  rw [ofPosition, Scalar.isFinite_real, if_neg (by decide), if_neg (not_not.2 hlat)]

/-- In exact arithmetic, every longitude has a zone, at most three degrees from its central meridian.
It is the zone of the wrapped longitude, and so that of all longitudes that differ by whole turns,
unless these are on the antimeridian. -/
theorem ofPosition_resolves (lon : ℝ) {lat : ℝ} (hlat : -90 ≤ lat ∧ lat ≤ 90) :
    ∃ zone : Zone, ofPosition lon lat = .ok zone ∧
      (1 ≤ zone.number ∧ zone.number ≤ 60) ∧
      (∃ meridian : ℝ, meridianOf zone.number = .ok meridian ∧
        |normalizeLon lon - meridian| ≤ 3 ∧
        (normalizeLon lon - meridian = 3 → normalizeLon lon = 180)) ∧
      ofLon (normalizeLon lon) = .ok zone.number ∧
      normalizeLon (normalizeLon lon) = normalizeLon lon ∧
      (-180 ≤ normalizeLon lon ∧ normalizeLon lon ≤ 180) ∧
      (∃ turns : ℤ, normalizeLon lon = lon + 360 * turns) ∧
      (¬ IsAntimeridian lon → ∀ turns : ℤ, ofPosition (lon + 360 * turns) lat = .ok zone) ∧
      (IsAntimeridian lon → (lon = 180 → zone.number = 60) ∧ (lon ≠ 180 → zone.number = 1)) := by
  have hposition := ofPosition_real (hasLat_real.2 hlat)
  have hwrapped := hasLon_normalizeLon lon
  obtain ⟨hlow, hhigh⟩ := hasLon_real.1 hwrapped
  obtain ⟨hwest, heast, hedge⟩ := numberOf_band hlow hhigh
  refine ⟨_, hposition lon, numberOf_bounds _, ⟨_, meridianOf_numberOf _, ?_, ?_⟩, ?_,
    normalizeLon_normalizeLon lon, ⟨hlow, hhigh⟩, exists_normalizeLon_eq lon, ?_, ?_⟩
  · rw [abs_le]
    constructor <;> linarith
  · intro hthree
    exact hedge (by linarith)
  · rw [ofLon, if_pos hwrapped]
  · intro hlon turns
    rw [hposition, normalizeLon_add_turns hlon turns]
  · intro hlon
    constructor
    · rintro rfl
      rw [normalizeLon_of_hasLon (hasLon_real.2 ⟨by norm_num, le_rfl⟩)]
      exact numberOf_maxLon
    · intro hne
      rw [normalizeLon_of_isAntimeridian hlon hne, numberOf_real]
      norm_num

/-- The antimeridian, a turn further east than 180. -/
theorem ofPosition_resolves_on_antimeridian :
    (-90 ≤ (10 : ℝ) ∧ (10 : ℝ) ≤ 90) ∧ ∃ zone : Zone, ofPosition (540 : ℝ) 10 = .ok zone ∧
      zone.number = 1 ∧ ofLon (normalizeLon (540 : ℝ)) = .ok 1 := by
  have hlat : -90 ≤ (10 : ℝ) ∧ (10 : ℝ) ≤ 90 := by
    constructor <;> norm_num
  have hantimeridian : IsAntimeridian 540 := ⟨1, by norm_num⟩
  obtain ⟨zone, hzone, -, -, hlon, -, -, -, -, hnumber⟩ := ofPosition_resolves 540 hlat
  have hone := (hnumber hantimeridian).2 (by norm_num)
  rw [hone] at hlon
  exact ⟨hlat, zone, hzone, hone, hlon⟩

end Zone
end UtmTiles
