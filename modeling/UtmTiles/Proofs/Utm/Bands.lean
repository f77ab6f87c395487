import UtmTiles.Coverage.Sweep
import UtmTiles.Proofs.Binary64.Index

/-!
# Bands of longitudes

The band of a longitude is computed with two roundings. Both are monotone, so that bands follow each
other from west to east as longitudes do (`bandOf_mono`). Close to 180° east the roundings reach
band 61, which no zone has, but only from the last double before 180 on (`bandOf_le_sixty`).
-/

namespace UtmTiles

open Binary64
open Float.Model (UnpackedFloat)

/-! ## Longitudes and latitudes as numbers -/

theorem value_180 : value 180.0 = 180 := by
  change exactValue (.finite .positive (180 * 2 ^ 45) (-45) (by decide)) = 180
  norm_num [exactValue, signed]

theorem value_neg_180 : value (-180.0) = -180 := by
  change exactValue (.finite .negative (180 * 2 ^ 45) (-45) (by decide)) = -180
  norm_num [exactValue, signed]

theorem value_90 : value 90.0 = 90 := by
  change exactValue (.finite .positive (90 * 2 ^ 46) (-46) (by decide)) = 90
  norm_num [exactValue, signed]

theorem value_neg_90 : value (-90.0) = -90 := by
  change exactValue (.finite .negative (90 * 2 ^ 46) (-46) (by decide)) = -90
  norm_num [exactValue, signed]

theorem value_6 : value 6.0 = 6 := by
  change exactValue (.finite .positive (6 * 2 ^ 50) (-50) (by decide)) = 6
  norm_num [exactValue, signed]

namespace Zone

theorem hasLon_iff {lon : Float} :
    HasLon lon ↔ lon.isFinite = true ∧ -180 ≤ value lon ∧ value lon ≤ 180 := by
  rw [← value_neg_180, ← value_180]
  exact between_iff rfl rfl

theorem hasLat_iff {lat : Float} :
    HasLat lat ↔ lat.isFinite = true ∧ -90 ≤ value lat ∧ value lat ≤ 90 := by
  rw [← value_neg_90, ← value_90]
  exact between_iff rfl rfl

end Zone

/-! ## Bands -/

namespace Coverage

/-- How many bands a longitude is from 180° west, rounded twice. -/
def bandOffset (lon : ℚ) : ℚ := rounded (rounded (lon + 180) / 6)

theorem bandOffset_mono {p q : ℚ} (h : p ≤ q) : bandOffset p ≤ bandOffset q :=
  rounded_mono (div_le_div_of_nonneg_right (rounded_mono (by linarith)) (by norm_num))

theorem rounded_turn_bounds {q : ℚ} (hlow : -180 ≤ q) (hhigh : q ≤ 180) :
    0 ≤ rounded (q + 180) ∧ rounded (q + 180) ≤ 360 := by
  refine ⟨rounded_nonneg (by linarith), ?_⟩
  calc rounded (q + 180) ≤ rounded (360 : ℤ) := rounded_mono (by push_cast; linarith)
    _ = 360 := by rw [rounded_intCast (by norm_num)]; norm_num

theorem bandOffset_bounds {q : ℚ} (hlow : -180 ≤ q) (hhigh : q ≤ 180) :
    0 ≤ bandOffset q ∧ bandOffset q ≤ 60 := by
  obtain ⟨hnonneg, hle⟩ := rounded_turn_bounds hlow hhigh
  refine ⟨rounded_nonneg (by linarith), ?_⟩
  calc bandOffset q ≤ rounded (60 : ℤ) := rounded_mono (by push_cast; linarith)
    _ = 60 := by rw [rounded_intCast (by norm_num)]; norm_num

/-- The last double before the last one before 180 is in the last band. -/
theorem bandOffset_lt {q : ℚ} (h : q ≤ 180 - 2 ^ (-44 : ℤ)) : bandOffset q < 60 := by
  have hturn : rounded (q + 180) ≤ 360 - 2 ^ (-44 : ℤ) := by
    calc rounded (q + 180) ≤ rounded (360 - 2 ^ (-44 : ℤ)) := rounded_mono (by linarith)
      _ = 360 - 2 ^ (-44 : ℤ) :=
        rounded_of_eq (m := 360 * 2 ^ 44 - 1) (e := -44) (by norm_num) (by norm_num) (by norm_num)
  have hbands : rounded (q + 180) / 6 ≤ 60 - 2 ^ (-47 : ℤ) := by
    norm_num at hturn ⊢
    linarith
  calc bandOffset q ≤ rounded (60 - 2 ^ (-47 : ℤ)) := rounded_mono hbands
    _ = 60 - 2 ^ (-47 : ℤ) :=
      rounded_of_eq (m := 60 * 2 ^ 47 - 1) (e := -47) (by norm_num) (by norm_num) (by norm_num)
    _ < 60 := by norm_num

variable {lon east : Float}

theorem bandOf_eq (h : Zone.HasLon lon) : bandOf lon = 1 + ⌊bandOffset (value lon)⌋ := by
  obtain ⟨hfinite, hlow, hhigh⟩ := Zone.hasLon_iff.1 h
  obtain ⟨hnonneg, hle⟩ := rounded_turn_bounds hlow hhigh
  obtain ⟨hnonneg', hle'⟩ := bandOffset_bounds hlow hhigh
  -- both results stay between 0 and 360, so neither rounding makes an infinity
  have hturn : IsRounded (lon + 180.0) (value lon + 180) := by
    rw [← value_180]
    refine isRounded_add hfinite rfl ?_
    rw [value_180, abs_of_nonneg hnonneg]
    exact lt_of_le_two_pow (hle.trans (by norm_num))
  have hoffset : IsRounded ((lon + 180.0) / 6.0) (rounded (value lon + 180) / 6) := by
    rw [← hturn.value, ← value_6]
    refine isRounded_div hturn.isFinite rfl (by rw [value_6]; norm_num) ?_
    rw [hturn.value, value_6]
    change |bandOffset (value lon)| < _
    rw [abs_of_nonneg hnonneg']
    exact lt_of_le_two_pow (hle'.trans (by norm_num))
  change 1 + Scalar.floorIndex ((lon + 180.0) / 6.0) = _
  rw [floorIndex_eq hoffset.isFinite, hoffset.value]
  have hlower : 0 ≤ ⌊bandOffset (value lon)⌋ := Int.floor_nonneg.2 hnonneg'
  have hupper : ⌊bandOffset (value lon)⌋ ≤ 60 := Int.floor_le_iff.2 (by push_cast; linarith)
  change 1 + clampIndex ⌊bandOffset (value lon)⌋ = _
  rw [clampIndex_eq (by unfold minIndex; omega) (by unfold maxIndex; omega)]

theorem one_le_bandOf (h : Zone.HasLon lon) : 1 ≤ bandOf lon := by
  obtain ⟨-, hlow, hhigh⟩ := Zone.hasLon_iff.1 h
  have hoffset := Int.floor_nonneg.2 (bandOffset_bounds hlow hhigh).1
  rw [bandOf_eq h]
  omega

/-- Bands follow each other from west to east. -/
theorem bandOf_mono (hlon : Zone.HasLon lon) (heast : Zone.HasLon east) (h : lon ≤ east) :
    bandOf lon ≤ bandOf east := by
  have hvalue := (le_iff (Zone.hasLon_iff.1 hlon).1 (Zone.hasLon_iff.1 heast).1).1 h
  rw [bandOf_eq hlon, bandOf_eq heast]
  exact Int.add_le_add_left (Int.floor_le_floor (bandOffset_mono hvalue)) 1

/-- West of another longitude that is west of a third one, all bands are those of zones. -/
theorem bandOf_le_sixty {west : Float} (hwest : Zone.HasLon west) (hlon : Zone.HasLon lon)
    (heast : Zone.HasLon east) (h : west < lon) (h' : lon < east) : bandOf west ≤ 60 := by
  obtain ⟨hfinite, hlow, -⟩ := Zone.hasLon_iff.1 hwest
  obtain ⟨hfinite', -, -⟩ := Zone.hasLon_iff.1 hlon
  obtain ⟨hfinite'', -, hhigh⟩ := Zone.hasLon_iff.1 heast
  -- doubles below 180 are whole numbers of `2 ^ -45`, as far as they are not below 128
  have hlast : value lon ≤ 180 - 2 ^ (-45 : ℤ) := by
    have hlt : value lon < ((180 * 2 ^ 45 - 1 : ℕ) + 1) * 2 ^ (-45 : ℤ) := by
      norm_num
      exact ((lt_iff hfinite' hfinite'').1 h').trans_le hhigh
    refine (value_le_of_lt hfinite' (by norm_num) hlt).trans_eq ?_
    norm_num
  have hbefore : value west ≤ 180 - 2 ^ (-44 : ℤ) := by
    have hlt : value west < ((180 * 2 ^ 45 - 2 : ℕ) + 1) * 2 ^ (-45 : ℤ) := by
      refine ((lt_iff hfinite hfinite').1 h).trans_le (hlast.trans_eq ?_)
      norm_num
    refine (value_le_of_lt hfinite (by norm_num) hlt).trans_eq ?_
    norm_num
  have hfloor : ⌊bandOffset (value west)⌋ < 60 :=
    Int.floor_lt.2 (by exact_mod_cast bandOffset_lt hbefore)
  rw [bandOf_eq hwest]
  omega

end Coverage
end UtmTiles
