import UtmTiles.Proofs.Tile.Pixel
import UtmTiles.Proofs.Utm.Series

/-!
# Points near a zone's origin

A point of a zone's plane is turned into a position and projected again. Both ways have series that
are cut off, and so the point that comes back is another one (`Utm.returned`). Here it is bounded in
exact arithmetic, for points north-east of where the central meridian meets the equator: each of the
functions on the way stretches a small angle by a factor that is not much above one
(`Utm.IsPartOf`), and all of them together by less than two (`Utm.returned_near_origin`).
-/

namespace UtmTiles
namespace Utm

open Real

/-! ## Functions that stretch little -/

/-- `y` is positive, and at most `k` times `x`. -/
def IsPartOf (k x y : ℝ) : Prop := 0 < y ∧ y ≤ k * x

section Functions

variable {x y z k l : ℝ}

theorem IsPartOf.trans (hxy : IsPartOf k x y) (hyz : IsPartOf l y z) : IsPartOf (l * k) x z := by
  have hl : 0 ≤ l := (pos_of_mul_pos_left (hyz.1.trans_le hyz.2) hxy.1.le).le
  exact ⟨hyz.1, hyz.2.trans (by rw [mul_assoc]; exact mul_le_mul_of_nonneg_left hxy.2 hl)⟩

theorem IsPartOf.weaken (hxy : IsPartOf k x y) (hx : 0 ≤ x) (hkl : k ≤ l) : IsPartOf l x y :=
  ⟨hxy.1, hxy.2.trans (mul_le_mul_of_nonneg_right hkl hx)⟩

/-- A part of a divisor that is near one. -/
theorem IsPartOf.div (hxy : IsPartOf k x y) (hz : 9 / 10 ≤ z) : IsPartOf (10 / 9 * k) x (y / z) := by
  refine ⟨div_pos hxy.1 (by linarith), ?_⟩
  rw [div_le_iff₀ (by linarith)]
  nlinarith [hxy.1, hxy.2]

theorem exp_le_of_small (hx : 0 ≤ x) (hsmall : x ≤ 1 / 10) : exp x ≤ 1 + 10 / 9 * x := by
  have hneg : 1 - x ≤ exp (-x) := by linarith [add_one_le_exp (-x)]
  have hproduct : exp x * exp (-x) = 1 := by rw [← exp_add, add_neg_cancel, exp_zero]
  have hpos := exp_pos x
  nlinarith

theorem cosh_le_of_small (hx : 0 ≤ x) (hsmall : x ≤ 1 / 10) : cosh x ≤ 10 / 9 := by
  have hexp := exp_le_of_small hx hsmall
  have hneg : exp (-x) ≤ 1 := exp_le_one_iff.2 (by linarith)
  rw [cosh_eq]
  linarith

theorem le_cos_of_small (hx : 0 ≤ x) (hsmall : x ≤ 1 / 10) : 9 / 10 ≤ cos x := by
  nlinarith [one_sub_sq_div_two_le_cos (x := x)]

theorem isPartOf_sinh (hx : 0 < x) (hsmall : x ≤ 1 / 10) : IsPartOf (10 / 9) x (sinh x) := by
  have hexp := exp_le_of_small hx.le hsmall
  have hneg : 1 - x ≤ exp (-x) := by linarith [add_one_le_exp (-x)]
  refine ⟨sinh_pos_iff.2 hx, ?_⟩
  rw [sinh_eq]
  linarith

theorem isPartOf_artanh (hx : 0 < x) (hsmall : x ≤ 1 / 10) : IsPartOf (10 / 9) x (artanh x) := by
  have hquotient : 0 < (1 + x) / (1 - x) := div_pos (by linarith) (by linarith)
  have hlog := log_le_sub_one_of_pos hquotient
  have hbound : (1 + x) / (1 - x) - 1 ≤ 2 * (10 / 9 * x) := by
    rw [div_sub_one (by linarith), div_le_iff₀ (by linarith)]
    nlinarith
  refine ⟨artanh_pos ⟨hx, by linarith⟩, ?_⟩
  rw [artanh_eq_half_log ⟨by linarith, by linarith⟩]
  linarith

theorem isPartOf_arctan (hx : 0 < x) : IsPartOf 1 x (arctan x) := by
  have hpos : 0 < arctan x := by rwa [arctan_pos]
  refine ⟨hpos, ?_⟩
  have hle := le_tan hpos.le (arctan_lt_pi_div_two x)
  rw [tan_arctan] at hle
  rwa [one_mul]

theorem isPartOf_sin (hx : 0 < x) (hsmall : x ≤ 1 / 10) : IsPartOf 1 x (sin x) :=
  ⟨sin_pos_of_pos_of_lt_pi hx (by linarith [pi_gt_three]), by rw [one_mul]; exact sin_le hx.le⟩

end Functions

/-! ### Corrections -/

namespace Series

variable {c : Series ℝ} {x y : ℝ}

theorem isPartOf_of_correction {d : ℝ} (hx : 0 < x) (hd : |d| ≤ 1 / 50 * x) :
    IsPartOf (51 / 50) x (x + d) ∧ IsPartOf (51 / 50) x (x - d) := by
  obtain ⟨hlow, hhigh⟩ := abs_le.1 hd
  exact ⟨⟨by linarith, by linarith⟩, by linarith, by linarith⟩

theorem isPartOf_along (hc : c.weight ≤ 1 / 100) (hx : 0 < x) (hy : 0 ≤ y) (hsmall : y ≤ 1 / 60) :
    IsPartOf (51 / 50) x (x + c.along x y) ∧ IsPartOf (51 / 50) x (x - c.along x y) := by
  have hcosh : cosh (6 * y) ≤ 10 / 9 := cosh_le_of_small (by linarith) (by linarith)
  apply isPartOf_of_correction hx
  calc |c.along x y| ≤ c.weight * (cosh (6 * y) * |x|) := c.abs_along_le
    _ ≤ 1 / 100 * (10 / 9 * x) := by
      rw [abs_of_pos hx]
      gcongr
    _ ≤ 1 / 50 * x := by linarith

theorem abs_term_across_le (a : ℝ) {k : ℝ} (hk : 0 < k) (hy : 0 < y) (hsmall : k * y ≤ 1 / 10) :
    |a * cos (k * x) * sinh (k * y)| ≤ k * |a| * (10 / 9 * y) := by
  obtain ⟨hpos, hsinh⟩ := isPartOf_sinh (mul_pos hk hy) hsmall
  rw [abs_mul, abs_mul, abs_of_pos hpos]
  calc |a| * |cos (k * x)| * sinh (k * y) ≤ |a| * 1 * (10 / 9 * (k * y)) := by
        gcongr
        exact abs_cos_le_one _
    _ = k * |a| * (10 / 9 * y) := by ring

theorem abs_across_le (hc : c.weight ≤ 1 / 100) (hy : 0 < y) (hsmall : y ≤ 1 / 60) :
    |c.across x y| ≤ 1 / 50 * y := by
  have hfirst := abs_term_across_le (x := x) c.first (k := 2) (by norm_num) hy (by linarith)
  have hsecond := abs_term_across_le (x := x) c.second (k := 4) (by norm_num) hy (by linarith)
  have hthird := abs_term_across_le (x := x) c.third (k := 6) (by norm_num) hy (by linarith)
  calc |c.across x y| ≤ c.weight * (10 / 9 * y) := by
        rw [across_real]
        refine (abs_add_three _ _ _).trans ?_
        rw [weight_eq, add_mul, add_mul]
        linarith
    _ ≤ 1 / 100 * (10 / 9 * y) := by gcongr
    _ ≤ 1 / 50 * y := by linarith

theorem isPartOf_across (hc : c.weight ≤ 1 / 100) (hy : 0 < y) (hsmall : y ≤ 1 / 60) :
    IsPartOf (51 / 50) y (y + c.across x y) ∧ IsPartOf (51 / 50) y (y - c.across x y) :=
  isPartOf_of_correction hy (abs_across_le hc hy hsmall)

end Series

/-! ## The way to the position -/

/-- The angle in radians from the central meridian of a zone to a longitude. -/
def fromMeridian {α : Type} [Elementary α] (zone : ℕ) (lon : α) : α :=
  Elementary.toRadians (lon - Zone.width * Scalar.ofInt zone + 183.0)

section Position

variable {x y : ℝ}

theorem le_unit : 6000000 ≤ (unit : ℝ) := by
  norm_num [unit, centralScale, rectifyingRadius, thirdFlattening, flattening, majorAxis]

theorem unit_pos : 0 < (unit : ℝ) := lt_of_lt_of_le (by norm_num) le_unit

theorem spherical_real (x y : ℝ) :
    spherical (falseEasting + unit * x) (unit * y) =
      (y - (Series.backward : Series ℝ).along y x, x - (Series.backward : Series ℝ).across y x) := by
  have hunit := (unit_pos).ne'
  have hx : (falseEasting + unit * x - falseEasting) / unit = x := by
    rw [add_sub_cancel_left, mul_div_cancel_left₀ x hunit]
  have hy : unit * y / unit = y := mul_div_cancel_left₀ y hunit
  simp only [spherical, hx, hy]
  rfl

/-- The latitude of the sphere is less than the angle along the central meridian. -/
theorem isPartOf_arcsin (hx : 0 < x) (hsmall : x ≤ 1 / 10) :
    IsPartOf 1 x (arcsin (sin x / cosh y)) := by
  obtain ⟨hsin, -⟩ := isPartOf_sin hx hsmall
  refine ⟨arcsin_pos.2 (div_pos hsin (cosh_pos y)), ?_⟩
  calc arcsin (sin x / cosh y) ≤ arcsin (sin x) :=
        arcsin_le_arcsin (div_le_self hsin.le (one_le_cosh y))
    _ = 1 * x := by rw [one_mul, arcsin_sin (by linarith [pi_gt_three]) (by linarith [pi_gt_three])]

/-- Longitudes a little east of a central meridian need not be wrapped. -/
theorem fromMeridian_wrap {zone : ℕ} (hzone : 1 ≤ zone ∧ zone ≤ 60) (hx : 0 < x)
    (hsmall : x ≤ 1 / 50) :
    fromMeridian zone (Scalar.wrap (Zone.width * Scalar.ofInt zone - 183.0
      + Elementary.toDegrees x + 180.0) 360.0 - 180.0) = x := by
  have hfirst : (1 : ℝ) ≤ zone := by exact_mod_cast hzone.1
  have hlast : (zone : ℝ) ≤ 60 := by exact_mod_cast hzone.2
  have hdegrees : Elementary.toDegrees x ≤ 2 := by
    rw [toDegrees_real, mul_div_assoc', div_le_iff₀ pi_pos]
    linarith [pi_gt_three]
  have hpos : 0 < Elementary.toDegrees x := by
    rw [toDegrees_real]
    positivity
  have hwidth : (Zone.width : ℝ) = 6 := by norm_num [Zone.width]
  have hhalf : (180.0 : ℝ) = 180 := by norm_num
  have hturn : (360.0 : ℝ) = 360 := by norm_num
  have hwest : (183.0 : ℝ) = 183 := by norm_num
  rw [fromMeridian, hwidth, hhalf, hturn, hwest, Scalar.ofInt_real, Int.cast_natCast, Scalar.wrap_eq_self]
  · rw [← toRadians_toDegrees x]
    congr 1
    rw [toRadians_toDegrees]
    ring
  · linarith
  · linarith

/-- The position of a point is about as far from the equator and from the central meridian. -/
theorem isPartOf_unproject {zone : ℕ} (hzone : 1 ≤ zone ∧ zone ≤ 60) (hx : 0 < x)
    (hxsmall : x ≤ 1 / 100) (hy : 0 < y) (hysmall : y ≤ 1 / 100) :
    let place := unproject zone (falseEasting + unit * x) (unit * y)
    IsPartOf (13 / 10) x (fromMeridian zone place.1) ∧
      IsPartOf (21 / 20) y (Elementary.toRadians place.2) := by
  intro place
  have hspherical := spherical_real x y
  generalize hxi : y - (Series.backward : Series ℝ).along y x = xi at hspherical
  generalize heta : x - (Series.backward : Series ℝ).across y x = eta at hspherical
  have hxipart : IsPartOf (51 / 50) y xi := hxi ▸
    (Series.isPartOf_along Series.weight_backward hy hx.le (by linarith)).2
  have hetapart : IsPartOf (51 / 50) x eta := heta ▸
    (Series.isPartOf_across Series.weight_backward hx (by linarith)).2
  have hxismall : xi ≤ 1 / 90 := by linarith [hxipart.2]
  have hetasmall : eta ≤ 1 / 90 := by linarith [hetapart.2]
  -- the longitude is the arctangent of a quotient, the latitude a corrected arcsine
  have hlon := (hetapart.trans (isPartOf_sinh hetapart.1 (by linarith))).div
    (le_cos_of_small hxipart.1.le (by linarith))
  replace hlon := hlon.trans (isPartOf_arctan hlon.1)
  have hlat := hxipart.trans (isPartOf_arcsin (y := eta) hxipart.1 (by linarith))
  have hlonplace : place.1 = Scalar.wrap (Zone.width * Scalar.ofInt zone - 183.0
      + Elementary.toDegrees (arctan (sinh eta / cos xi)) + 180.0) 360.0 - 180.0 := by
    simp only [place, unproject, hspherical]
    rfl
  have hlatplace : place.2 = latOf xi eta := by
    simp only [place, unproject, hspherical]
  rw [hlonplace, hlatplace, latOf_real, toRadians_toDegrees,
    fromMeridian_wrap hzone hlon.1 (by linarith [hlon.2])]
  replace hlat := hlat.trans
    (Series.isPartOf_along Series.weight_latitude hlat.1 le_rfl (by norm_num)).1
  exact ⟨hlon.weaken hx.le (by norm_num), hlat.weaken hy.le (by norm_num)⟩

/-! ## The way back to the plane -/

/-- The eccentricity of the ellipsoid, as the third flattening gives it. -/
theorem eccentricity_bounds :
    0 < 2.0 * √thirdFlattening / (1.0 + thirdFlattening) ∧
      2.0 * √thirdFlattening / (1.0 + thirdFlattening) < 1 := by
  have hthird : (0 : ℝ) < thirdFlattening ∧ (thirdFlattening : ℝ) < 1 := by
    norm_num [Series.thirdFlattening_real]
  have hroot : √(thirdFlattening : ℝ) < 1 := (sqrt_lt' one_pos).2 (by rw [one_pow]; exact hthird.2)
  have hsquare := sq_sqrt hthird.1.le
  have hone : (1.0 : ℝ) = 1 := by norm_num
  have htwo : (2.0 : ℝ) = 2 := by norm_num
  rw [hone, htwo]
  refine ⟨div_pos (mul_pos two_pos (sqrt_pos.2 hthird.1)) (by linarith), ?_⟩
  rw [div_lt_one (by linarith)]
  nlinarith

/-- The angle that the ellipsoid's flattening takes from a latitude is less than the latitude. -/
theorem flattened_lt {e : ℝ} (he : 0 < e ∧ e < 1) (hx : 0 < x ∧ x < 1) :
    0 < e * artanh (e * x) ∧ e * artanh (e * x) < artanh x := by
  obtain ⟨hpos, hlow⟩ : 0 < e * x ∧ e * x < x :=
    ⟨mul_pos he.1 hx.1, mul_lt_of_lt_one_left hx.1 he.2⟩
  have hpart := artanh_pos ⟨hpos, hlow.trans hx.2⟩
  exact ⟨mul_pos he.1 hpart, (mul_lt_of_lt_one_left hpart he.2).trans
    (artanh_lt_artanh (by linarith) hx.2 hlow)⟩

theorem isPartOf_sphereTangent (hx : 0 < x) (hsmall : x ≤ 1 / 50) :
    IsPartOf (100 / 81) x (sphereTangent x) := by
  obtain ⟨e, he, htangent⟩ : ∃ e : ℝ, (0 < e ∧ e < 1) ∧
      sphereTangent x = sinh (artanh x - e * artanh (e * x)) := ⟨_, eccentricity_bounds, rfl⟩
  obtain ⟨hpos, hless⟩ := flattened_lt he ⟨hx, by linarith⟩
  have hdifference : IsPartOf (10 / 9) x (artanh x - e * artanh (e * x)) := by
    have hle := (isPartOf_artanh hx (by linarith)).2
    exact ⟨by linarith, by linarith⟩
  rw [htangent]
  refine (hdifference.trans (isPartOf_sinh hdifference.1 ?_)).weaken hx.le (by norm_num)
  linarith [hdifference.2]

theorem project_real (zone : ℕ) (lon lat : ℝ) :
    let lam := fromMeridian zone lon
    let t := sphereTangent (sin (Elementary.toRadians lat))
    let xi := arctan (t / cos lam)
    let eta := artanh (sin lam / √(1 + t * t))
    project zone lon lat =
      (falseEasting + unit * (eta + (Series.forward : Series ℝ).across xi eta),
       unit * (xi + (Series.forward : Series ℝ).along xi eta)) := by
  intro lam t xi eta
  have hone : (1.0 : ℝ) = 1 := by norm_num
  simp only [Series.across, Series.along, ← add_assoc, eta, ← hone]
  rfl

/-- A position is projected to a point that is about as far from the equator and from the central
meridian. -/
theorem isPartOf_project {zone : ℕ} {lon lat : ℝ} (hx : fromMeridian zone lon = x)
    (hy : Elementary.toRadians lat = y) (hxpos : 0 < x) (hxsmall : x ≤ 1 / 75) (hypos : 0 < y)
    (hysmall : y ≤ 1 / 75) :
    ∃ u v, project zone lon lat = (falseEasting + unit * u, unit * v) ∧
      IsPartOf (3 / 2) x u ∧ IsPartOf (3 / 2) y v := by
  refine ⟨_, _, project_real zone lon lat, ?_⟩
  rw [hx, hy]
  have hsin := isPartOf_sin hypos (by linarith)
  have htangent := hsin.trans (isPartOf_sphereTangent hsin.1 (by linarith [hsin.2]))
  -- the angle along is an arctangent, that across an inverse hyperbolic tangent
  have hxi := htangent.div (le_cos_of_small hxpos.le (by linarith))
  replace hxi := hxi.trans (isPartOf_arctan hxi.1)
  have hroot : 9 / 10 ≤ √(1 + sphereTangent (sin y) * sphereTangent (sin y)) := by
    refine le_sqrt_of_sq_le ?_
    nlinarith [mul_self_nonneg (sphereTangent (sin y))]
  have heta := (isPartOf_sin hxpos (by linarith)).div hroot
  replace heta := heta.trans (isPartOf_artanh heta.1 (by linarith [heta.2]))
  constructor
  · exact (heta.trans (Series.isPartOf_across Series.weight_forward heta.1
      (by linarith [heta.2])).1).weaken hxpos.le (by norm_num)
  · exact (hxi.trans (Series.isPartOf_along Series.weight_forward hxi.1 heta.1.le
      (by linarith [heta.2])).1).weaken hypos.le (by norm_num)

end Position

/-! ## The point that comes back -/

/-- The point that comes back when a point of a zone's plane is turned into a position and this
position is projected. -/
def returned {α : Type} [Elementary α] (zone : ℕ) (p : Point α) : Point α :=
  let place := unproject zone p.x p.y
  let back := project zone place.1 place.2
  ⟨back.1, back.2⟩

/-- Close to the origin of a zone, the point that comes back is less than twice as far away. -/
theorem returned_near_origin {zone : ℕ} (hzone : 1 ≤ zone ∧ zone ≤ 60) {p : Point ℝ}
    (hx : 500000 < p.x ∧ p.x ≤ 560000) (hy : 0 < p.y ∧ p.y ≤ 60000) :
    |(returned zone p).x - p.x| < p.x - 500000 ∧ |(returned zone p).y - p.y| < p.y := by
  have hunit := (unit_pos).ne'
  obtain ⟨x, hpx⟩ : ∃ x, falseEasting + unit * x = p.x :=
    ⟨(p.x - falseEasting) / unit, by rw [mul_div_cancel₀ _ hunit, add_sub_cancel]⟩
  obtain ⟨y, hpy⟩ : ∃ y, unit * y = p.y := ⟨p.y / unit, mul_div_cancel₀ _ hunit⟩
  have hsmall {z : ℝ} (hz : 0 < unit * z ∧ unit * z ≤ 60000) : 0 < z ∧ z ≤ 1 / 100 := by
    have hpos := pos_of_mul_pos_right hz.1 unit_pos.le
    exact ⟨hpos, by nlinarith [le_unit]⟩
  rw [← hpy] at hy
  obtain ⟨hypos, hysmall⟩ := hsmall hy
  rw [← hpx, falseEasting_real] at hx
  obtain ⟨hxpos, hxsmall⟩ := hsmall (z := x) ⟨by linarith, by linarith⟩
  obtain ⟨hlon, hlat⟩ := isPartOf_unproject hzone hxpos hxsmall hypos hysmall
  obtain ⟨u, v, hproject, hu, hv⟩ := isPartOf_project rfl rfl hlon.1 (by linarith [hlon.2]) hlat.1
    (by linarith [hlat.2])
  have hreturned : returned zone p = ⟨falseEasting + unit * u, unit * v⟩ := by
    simp only [returned, ← hpx, ← hpy, hproject]
  have hdistance {z w k : ℝ} (hz : 0 < z) (hw : IsPartOf k z w) (hk : k < 2) :
      |unit * w - unit * z| < unit * z := by
    obtain ⟨hpos, hle⟩ := hw
    rw [← mul_sub, abs_mul, abs_of_pos unit_pos, mul_lt_mul_iff_right₀ unit_pos, abs_lt]
    constructor <;> nlinarith
  rw [hreturned, ← hpx, ← hpy, add_sub_add_left_eq_sub, falseEasting_real, add_sub_cancel_left]
  exact ⟨hdistance hxpos (hlon.trans hu) (by norm_num), hdistance hypos (hlat.trans hv) (by norm_num)⟩

end Utm
end UtmTiles
