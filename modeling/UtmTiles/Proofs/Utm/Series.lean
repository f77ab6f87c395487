import Mathlib.Analysis.Complex.ExponentialBounds
import Mathlib.Analysis.SpecialFunctions.Trigonometric.Bounds
import Mathlib.Analysis.SpecialFunctions.Trigonometric.DerivHyp
import UtmTiles.Proofs.Scalar.Real
import UtmTiles.Utm.Projection

/-!
# Bounds of the projection's series

A projection and its inverse are those of a sphere, with series that correct the angles. In exact
arithmetic, a series adds a small part of an angle to it, both near the origin
(`Utm.Series.abs_along_le`) and near the pole (`Utm.Series.abs_along_le_pole`). So corrected latitudes
stay on the globe: every point of a zone's plane, however far away, has a latitude
(`Utm.hasLat_unproject`). Longitudes are not corrected; they come from an arctangent, and so they lie
within a quarter of a turn of the central meridian, before whole turns are taken away from them
(`Utm.unproject_fst`).
-/

namespace UtmTiles
namespace Utm

open Real

/-! ## Corrections -/

namespace Series

section Corrections

variable {α : Type} [Elementary α]

/-- What a series adds to the angle `x` along the central meridian, next to the angle `y` across. -/
def along (c : Series α) (x y : α) : α :=
  c.first * Elementary.sin (2.0 * x) * Elementary.cosh (2.0 * y)
    + c.second * Elementary.sin (4.0 * x) * Elementary.cosh (4.0 * y)
    + c.third * Elementary.sin (6.0 * x) * Elementary.cosh (6.0 * y)

/-- What a series adds to the angle `y` across the central meridian, next to the angle `x` along. -/
def across (c : Series α) (x y : α) : α :=
  c.first * Elementary.cos (2.0 * x) * Elementary.sinh (2.0 * y)
    + c.second * Elementary.cos (4.0 * x) * Elementary.sinh (4.0 * y)
    + c.third * Elementary.cos (6.0 * x) * Elementary.sinh (6.0 * y)

end Corrections

/-- Bounds the part of an angle that a series adds to it. -/
noncomputable def weight (c : Series ℝ) : ℝ :=
  2.0 * |c.first| + 4.0 * |c.second| + 6.0 * |c.third|

theorem thirdFlattening_real : (thirdFlattening : ℝ) = 1 / 595.514447126 := by
  norm_num [thirdFlattening, flattening]

theorem weight_forward : (forward : Series ℝ).weight ≤ 1 / 100 := by
  norm_num [weight, forward, thirdFlattening_real, abs_of_pos]

theorem weight_backward : (backward : Series ℝ).weight ≤ 1 / 100 := by
  norm_num [weight, backward, thirdFlattening_real, abs_of_pos]

theorem weight_latitude : (latitude : Series ℝ).weight ≤ 1 / 100 := by
  norm_num [weight, latitude, thirdFlattening_real, abs_of_pos]

theorem cosh_le_of_abs_le_three {x : ℝ} (hx : |x| ≤ 3) : cosh x ≤ 27 := by
  have hexp : exp 3 ≤ 27 := by
    calc exp 3 = exp 1 ^ 3 := by rw [← exp_nat_mul]; norm_num
      _ ≤ 3 ^ 3 := by
        gcongr
        linarith [exp_one_lt_d9]
      _ = 27 := by norm_num
  have hneg : exp (-3) ≤ exp 3 := exp_le_exp.2 (by norm_num)
  calc cosh x ≤ cosh 3 := cosh_le_cosh.2 (by rwa [abs_of_pos (by norm_num : (0 : ℝ) < 3)])
    _ = (exp 3 + exp (-3)) / 2 := cosh_eq 3
    _ ≤ 27 := by linarith

section Bounds

variable (c : Series ℝ) {x y : ℝ}

theorem along_real :
    c.along x y = c.first * sin (2 * x) * cosh (2 * y) + c.second * sin (4 * x) * cosh (4 * y)
      + c.third * sin (6 * x) * cosh (6 * y) := by
  have htwo : (2.0 : ℝ) = 2 := by norm_num
  have hfour : (4.0 : ℝ) = 4 := by norm_num
  have hsix : (6.0 : ℝ) = 6 := by norm_num
  rw [along, htwo, hfour, hsix]
  rfl

theorem across_real :
    c.across x y = c.first * cos (2 * x) * sinh (2 * y) + c.second * cos (4 * x) * sinh (4 * y)
      + c.third * cos (6 * x) * sinh (6 * y) := by
  have htwo : (2.0 : ℝ) = 2 := by norm_num
  have hfour : (4.0 : ℝ) = 4 := by norm_num
  have hsix : (6.0 : ℝ) = 6 := by norm_num
  rw [across, htwo, hfour, hsix]
  rfl

theorem weight_eq : c.weight = 2 * |c.first| + 4 * |c.second| + 6 * |c.third| := by
  norm_num [weight]

theorem along_neg : c.along (-x) y = -c.along x y := by
  simp only [along_real, mul_neg, sin_neg]
  ring

theorem across_neg : c.across x (-y) = -c.across x y := by
  simp only [across_real, mul_neg, sinh_neg]
  ring

theorem abs_term_along_le (a : ℝ) {k : ℝ} (hk : 0 ≤ k) (hk6 : k ≤ 6) :
    |a * sin (k * x) * cosh (k * y)| ≤ k * |a| * (cosh (6 * y) * |x|) := by
  have hsin : |sin (k * x)| ≤ k * |x| := by
    refine abs_sin_le_abs.trans ?_
    rw [abs_mul, abs_of_nonneg hk]
  have hcosh : cosh (k * y) ≤ cosh (6 * y) := by
    rw [cosh_le_cosh, abs_mul, abs_mul, abs_of_nonneg hk, abs_of_nonneg (by norm_num : (0 : ℝ) ≤ 6)]
    exact mul_le_mul_of_nonneg_right hk6 (abs_nonneg y)
  rw [abs_mul, abs_mul, abs_of_pos (cosh_pos _)]
  calc |a| * |sin (k * x)| * cosh (k * y) ≤ |a| * (k * |x|) * cosh (6 * y) := by gcongr
    _ = k * |a| * (cosh (6 * y) * |x|) := by ring

theorem abs_along_le : |c.along x y| ≤ c.weight * (cosh (6 * y) * |x|) := by
  have hfirst := abs_term_along_le (x := x) (y := y) c.first (k := 2) (by norm_num) (by norm_num)
  have hsecond := abs_term_along_le (x := x) (y := y) c.second (k := 4) (by norm_num) (by norm_num)
  have hthird := abs_term_along_le (x := x) (y := y) c.third (k := 6) (by norm_num) le_rfl
  rw [along_real]
  refine (abs_add_three _ _ _).trans ?_
  rw [weight_eq, add_mul, add_mul]
  linarith

/-- Near the pole, the correction is small as well. -/
theorem abs_along_le_cosh_pole : |c.along x y| ≤ c.weight * (cosh (6 * y) * |π / 2 - x|) := by
  -- at the angle that is left to the pole, the second sine changes its sign and the others do not
  have hreflected : c.along x y = ({ c with second := -c.second } : Series ℝ).along (π / 2 - x) y := by
    have hsecond : sin (4 * (π / 2 - x)) = -sin (4 * x) := by
      rw [show 4 * (π / 2 - x) = 2 * π - 4 * x by ring, sin_two_pi_sub]
    have hfirst : sin (2 * (π / 2 - x)) = sin (2 * x) := by
      rw [show 2 * (π / 2 - x) = π - 2 * x by ring, sin_pi_sub]
    have hthird : sin (6 * (π / 2 - x)) = sin (6 * x) := by
      rw [show 6 * (π / 2 - x) = 2 * π + (π - 6 * x) by ring, add_comm, sin_add_two_pi, sin_pi_sub]
    simp only [along_real, hfirst, hsecond, hthird]
    ring
  have hle := abs_along_le { c with second := -c.second } (x := π / 2 - x) (y := y)
  simpa only [hreflected, weight_eq, abs_neg] using hle

/-- Up to half a unit across, the correction is less than half of the angle to the pole. -/
theorem abs_along_le_half_pole (hc : c.weight ≤ 1 / 100) (hy : |y| ≤ 1 / 2) :
    |c.along x y| ≤ |π / 2 - x| / 2 := by
  have hcosh : cosh (6 * y) ≤ 27 := by
    apply cosh_le_of_abs_le_three
    rw [abs_mul, abs_of_pos (by norm_num : (0 : ℝ) < 6)]
    linarith
  calc |c.along x y| ≤ c.weight * (cosh (6 * y) * |π / 2 - x|) := c.abs_along_le_cosh_pole
    _ ≤ 1 / 100 * (27 * |π / 2 - x|) := by gcongr
    _ ≤ |π / 2 - x| / 2 := by linarith [abs_nonneg (π / 2 - x)]

/-- Near the pole and on the central meridian, the correction is a part of the angle that is left. -/
theorem abs_along_le_pole : |c.along x 0| ≤ c.weight * |π / 2 - x| := by
  have hle := c.abs_along_le_cosh_pole (x := x) (y := 0)
  rwa [mul_zero, cosh_zero, one_mul] at hle

/-- A corrected latitude stays between the poles. -/
theorem abs_add_along_le (hc : c.weight ≤ 1) (hx : |x| ≤ π / 2) : |x + c.along x 0| ≤ π / 2 := by
  have hupper {z : ℝ} (hz : z ≤ π / 2) : z + c.along z 0 ≤ π / 2 := by
    have hcorrection := (le_abs_self _).trans (c.abs_along_le_pole (x := z))
    rw [abs_of_nonneg (sub_nonneg.2 hz)] at hcorrection
    have hpart := mul_le_of_le_one_left (sub_nonneg.2 hz) hc
    linarith
  obtain ⟨hlow, hhigh⟩ := abs_le.1 hx
  have hlower := hupper (neg_le.1 hlow)
  rw [along_neg] at hlower
  exact abs_le.2 ⟨by linarith, hupper hhigh⟩

end Bounds

end Series

/-! ## Latitudes -/

theorem toDegrees_real (x : ℝ) : Elementary.toDegrees x = x * (180 / π) := by
  have hturn : (180.0 : ℝ) = 180 := by norm_num
  rw [Elementary.toDegrees, hturn]
  rfl

theorem toRadians_real (x : ℝ) : Elementary.toRadians x = x * (π / 180) := by
  have hturn : (180.0 : ℝ) = 180 := by norm_num
  rw [Elementary.toRadians, hturn]
  rfl

theorem toRadians_toDegrees (x : ℝ) : Elementary.toRadians (Elementary.toDegrees x) = x := by
  rw [toDegrees_real, toRadians_real, mul_assoc, div_mul_div_cancel₀ pi_ne_zero, div_self (by norm_num),
    mul_one]

theorem latOf_real (xi eta : ℝ) :
    let chi := arcsin (sin xi / cosh eta)
    latOf xi eta = Elementary.toDegrees (chi + (Series.latitude : Series ℝ).along chi 0) := by
  intro chi
  have hlat : latOf xi eta = Elementary.toDegrees
      (chi + (Series.latitude : Series ℝ).first * sin (2.0 * chi)
        + (Series.latitude : Series ℝ).second * sin (4.0 * chi)
        + (Series.latitude : Series ℝ).third * sin (6.0 * chi)) := rfl
  rw [hlat, Series.along_real]
  norm_num [add_assoc]

/-- In exact arithmetic, every point of the plane has a latitude on the globe. -/
theorem hasLat_unproject (zone : ℕ) (easting northing : ℝ) :
    Zone.HasLat (unproject zone easting northing).2 := by
  have hlat : (unproject zone easting northing).2 =
      latOf (spherical easting northing).1 (spherical easting northing).2 := rfl
  have hchi (z : ℝ) : |arcsin z| ≤ π / 2 :=
    abs_le.2 ⟨neg_pi_div_two_le_arcsin z, arcsin_le_pi_div_two z⟩
  have hweight : (Series.latitude : Series ℝ).weight ≤ 1 :=
    Series.weight_latitude.trans (by norm_num)
  rw [hlat, latOf_real, toDegrees_real]
  obtain ⟨hlow, hhigh⟩ := abs_le.1 (Series.abs_add_along_le _ hweight (hchi _))
  have hquarter : π / 2 * (180 / π) = (Zone.maxLat : ℝ) := by
    have hpi := pi_ne_zero
    rw [Zone.maxLat]
    field_simp
    norm_num
  have hpositive : 0 ≤ 180 / π := by positivity
  rw [Zone.HasLat, ← hquarter, ← neg_mul]
  exact ⟨mul_le_mul_of_nonneg_right hlow hpositive, mul_le_mul_of_nonneg_right hhigh hpositive⟩

/-! ## Longitudes -/

theorem abs_toDegrees_arctan_lt (z : ℝ) : |Elementary.toDegrees (arctan z)| < 90 := by
  have hquarter : |arctan z| < π / 2 :=
    abs_lt.2 ⟨neg_pi_div_two_lt_arctan z, arctan_lt_pi_div_two z⟩
  have hscale : 0 < 180 / π := by positivity
  rw [toDegrees_real, abs_mul, abs_of_pos hscale]
  calc |arctan z| * (180 / π) < π / 2 * (180 / π) := by gcongr
    _ = 90 := by
      have hpi := pi_ne_zero
      field_simp
      norm_num

theorem unwrappedLon_real (zone : ℕ) (xi eta : ℝ) :
    unwrappedLon zone xi eta =
      Zone.centralMeridian zone + Elementary.toDegrees (arctan (sinh eta / cos xi)) := by
  have hmeridian : (unwrappedLon zone xi eta : ℝ) = Zone.width * Scalar.ofInt zone - 183.0
      + Elementary.toDegrees (arctan (sinh eta / cos xi)) := rfl
  rw [hmeridian, Zone.centralMeridian, mul_comm]

/-- The longitude of a point, without the whole turns that it contains. -/
theorem unproject_fst (zone : ℕ) (easting northing : ℝ) :
    let place := spherical easting northing
    let lon := unwrappedLon zone place.1 place.2
    (unproject zone easting northing).1 = lon - 360 * ⌊(lon + 180) / 360⌋ := by
  intro place lon
  have hhalf : (180.0 : ℝ) = 180 := by norm_num
  have hturn : (360.0 : ℝ) = 360 := by norm_num
  have hwrapped : (unproject zone easting northing).1 =
    Scalar.wrap (lon + 180.0) 360.0 - 180.0 := rfl
  have hwrap : Scalar.wrap (lon + 180) 360 = lon + 180 - 360 * ⌊(lon + 180) / 360⌋ := rfl
  rw [hwrapped, hhalf, hturn, hwrap]
  ring

end Utm
end UtmTiles
