import UtmTiles.Proofs.Utm.Longitude
import UtmTiles.Proofs.Utm.Origin

/-!
# The side of the equator

The projection is odd in the latitude, and northings grow away from the equator: inside of a zone, the
series for the northing corrects an angle by less than half of it. So in exact arithmetic a northing is
negative exactly when the latitude is (`Utm.northing_neg_iff`). The poles are left out, since the
conformal latitude has no finite tangent there.
-/

namespace UtmTiles
namespace Utm

open Real

/-! ## Odd functions -/

theorem artanh_odd (x : ℝ) : artanh (-x) = -artanh x := by
  have hinverse : (1 + -x) / (1 - -x) = ((1 + x) / (1 - x))⁻¹ := by
    rw [inv_div, sub_neg_eq_add, ← sub_eq_add_neg]
  rw [artanh, hinverse, sqrt_inv, log_inv, artanh]

theorem sphereTangent_neg (x : ℝ) : sphereTangent (-x) = -sphereTangent x := by
  obtain ⟨e, htangent⟩ : ∃ e : ℝ, ∀ y : ℝ, sphereTangent y = sinh (artanh y - e * artanh (e * y)) :=
    ⟨_, fun _ => rfl⟩
  rw [htangent, htangent, mul_neg, artanh_odd, artanh_odd, ← sinh_neg]
  congr 1
  ring

theorem northing_neg_lat (zone : ℕ) (lon lat : ℝ) :
    (project zone lon (-lat)).2 = -(project zone lon lat).2 := by
  simp only [project_real, toRadians_real, neg_mul, sin_neg, sphereTangent_neg, neg_div, arctan_neg,
    mul_neg, neg_neg, Series.along_neg]
  ring

/-! ## Signs -/

variable {x : ℝ}

theorem sphereTangent_pos (hpos : 0 < x) (hlt : x < 1) : 0 < sphereTangent x := by
  obtain ⟨e, he, htangent⟩ : ∃ e : ℝ, (0 < e ∧ e < 1) ∧
      sphereTangent x = sinh (artanh x - e * artanh (e * x)) := ⟨_, eccentricity_bounds, rfl⟩
  rw [htangent, sinh_pos_iff, sub_pos]
  exact (flattened_lt he ⟨hpos, hlt⟩).2

theorem abs_artanh_le (hsmall : |x| ≤ 1 / 10) : |artanh x| ≤ 10 / 9 * |x| := by
  rcases lt_trichotomy x 0 with hneg | rfl | hpos
  · rw [abs_of_neg hneg] at hsmall ⊢
    obtain ⟨hartanh, hle⟩ := isPartOf_artanh (neg_pos.2 hneg) hsmall
    rw [artanh_odd] at hartanh hle
    rwa [abs_of_neg (neg_pos.1 hartanh)]
  · simp
  · rw [abs_of_pos hpos] at hsmall ⊢
    obtain ⟨hartanh, hle⟩ := isPartOf_artanh hpos hsmall
    rwa [abs_of_pos hartanh]

/-- Up to an angle of about ten degrees across the central meridian, the northing's series corrects
the angle along it by less than half of it. -/
theorem add_along_forward_pos (hpos : 0 < x) {y : ℝ} (hsmall : |y| ≤ 1 / 6) :
    0 < x + (Series.forward : Series ℝ).along x y := by
  have hcosh : cosh (6 * y) ≤ 3 := by
    have hunit : cosh (6 * y) ≤ cosh 1 := by
      rw [cosh_le_cosh, abs_mul, abs_of_pos (by norm_num : (0 : ℝ) < 6), abs_one]
      linarith
    have hexp := exp_one_lt_d9
    have hneg : exp (-1) ≤ 1 := exp_le_one_iff.2 (by norm_num)
    rw [cosh_eq 1] at hunit
    linarith
  have hcorrection := (Series.forward : Series ℝ).abs_along_le (x := x) (y := y)
  have hpart : (Series.forward : Series ℝ).weight * (cosh (6 * y) * |x|) ≤ 1 / 100 * (3 * x) := by
    have hweight := Series.weight_forward
    rw [abs_of_pos hpos]
    gcongr
  linarith [neg_abs_le ((Series.forward : Series ℝ).along x y)]

/-! ## Northings -/

/-- Longitudes of a zone are at most three degrees away from its central meridian. -/
theorem abs_fromMeridian_le {lon : ℝ} (hlon : Zone.HasLon lon) :
    |fromMeridian (Zone.numberOf lon) lon| ≤ 1 / 15 := by
  obtain ⟨hlow, hhigh⟩ := Zone.hasLon_real.1 hlon
  obtain ⟨hwest, heast, -⟩ := Zone.numberOf_band hlow hhigh
  have hmeridian : (183.0 : ℝ) = 183 := by norm_num
  have hpi := pi_lt_four
  have hdegrees : |lon - 6 * (Zone.numberOf lon : ℝ) + 183| ≤ 3 := by
    rw [abs_le]
    constructor <;> linarith
  rw [fromMeridian, Zone.width_real, hmeridian, Scalar.ofInt_real, Int.cast_natCast, toRadians_real,
    abs_mul, abs_of_pos (by positivity : 0 < π / 180)]
  calc |lon - 6 * (Zone.numberOf lon : ℝ) + 183| * (π / 180) ≤ 3 * (4 / 180) := by gcongr
    _ = 1 / 15 := by norm_num

theorem northing_pos {zone : ℕ} {lon lat : ℝ} (hlon : |fromMeridian zone lon| ≤ 1 / 15)
    (hpos : 0 < lat) (hlt : lat < 90) : 0 < (project zone lon lat).2 := by
  rw [project_real]
  generalize fromMeridian zone lon = lam at hlon
  have hangle : 0 < Elementary.toRadians lat ∧ Elementary.toRadians lat < π / 2 := by
    rw [toRadians_real]
    constructor
    · positivity
    · calc lat * (π / 180) < 90 * (π / 180) := by gcongr
        _ = π / 2 := by ring
  obtain ⟨hlow, hhigh⟩ := hangle
  have hsin : 0 < sin (Elementary.toRadians lat) := sin_pos_of_pos_of_lt_pi hlow (by linarith [pi_pos])
  have hone : sin (Elementary.toRadians lat) < 1 := by
    have hmono := sin_lt_sin_of_lt_of_le_pi_div_two (by linarith) le_rfl hhigh
    rwa [sin_pi_div_two] at hmono
  have htangent := sphereTangent_pos hsin hone
  generalize sphereTangent (sin (Elementary.toRadians lat)) = t at htangent
  -- the angle along the central meridian is positive, and that across it is small
  have hcos : 0 < cos lam := by
    obtain ⟨hwest, heast⟩ := abs_le.1 hlon
    exact cos_pos_of_mem_Ioo ⟨by linarith [pi_gt_three], by linarith [pi_gt_three]⟩
  have hxi : 0 < arctan (t / cos lam) := by
    rw [arctan_pos]
    exact div_pos htangent hcos
  have hroot : 1 ≤ √(1 + t * t) := one_le_sqrt.2 (by nlinarith)
  have hquotient : |sin lam / √(1 + t * t)| ≤ 1 / 15 := by
    rw [abs_div, abs_of_nonneg (by linarith : 0 ≤ √(1 + t * t))]
    exact (div_le_self (abs_nonneg _) hroot).trans (abs_sin_le_abs.trans hlon)
  have heta : |artanh (sin lam / √(1 + t * t))| ≤ 1 / 6 := by
    have hle := abs_artanh_le (x := sin lam / √(1 + t * t)) (by linarith)
    linarith
  exact mul_pos unit_pos (add_along_forward_pos hxi heta)

/-- In exact arithmetic, northings in a zone are negative exactly for negative latitudes. -/
theorem northing_neg_iff {lon lat : ℝ} (hlon : Zone.HasLon lon) (hlat : |lat| < 90) :
    (project (Zone.numberOf lon) lon lat).2 < 0 ↔ lat < 0 := by
  have hnear := abs_fromMeridian_le hlon
  obtain ⟨hlow, hhigh⟩ := abs_lt.1 hlat
  rcases lt_trichotomy lat 0 with hneg | rfl | hpos
  · have hnorth := northing_pos hnear (neg_pos.2 hneg) (by linarith)
    rw [northing_neg_lat] at hnorth
    exact iff_of_true (neg_pos.1 hnorth) hneg
  · rw [Tile.northing_equator]
  · exact iff_of_false (northing_pos hnear hpos hhigh).le.not_gt hpos.le.not_gt

end Utm
end UtmTiles
