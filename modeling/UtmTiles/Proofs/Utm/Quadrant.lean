import Mathlib.Analysis.Real.Pi.Bounds
import Mathlib.Analysis.SpecialFunctions.Complex.Arg
import UtmTiles.Proofs.Utm.Origin

/-!
# Points beyond a pole

A point of a zone's plane stands for the direction of a vector (`Utm.direction`): with the angles
`xi` along and `eta` across the central meridian, the vector is `(cos xi, sinh eta)`. The longitude of
the point comes from the quotient of the two components, and the quotient of a vector is that of its
opposite. So the longitude has the vector's direction on the near side of the poles, where the cosine
is positive, and the opposite one beyond them (`Utm.lon_has_direction_iff_before_pole`). All of this
is about exact arithmetic.
-/

namespace UtmTiles
namespace Utm

open Real

/-! ## Quotients and angles -/

section Angles

variable {x y : ℝ}

theorem arctan_div_eq_arg (hx : 0 < x) : arctan (y / x) = Complex.arg ⟨x, y⟩ := by
  have hquarter : |Complex.arg ⟨x, y⟩| < π / 2 := Complex.abs_arg_lt_pi_div_two_iff.2 (Or.inl hx)
  obtain ⟨hlow, hhigh⟩ := abs_lt.1 hquarter
  rw [← Complex.tan_arg ⟨x, y⟩, arctan_tan hlow hhigh]

/-- The quotient of a vector is that of its opposite. -/
theorem exists_arctan_div_eq_arg (hx : x < 0) :
    ∃ k : ℤ, arctan (y / x) = Complex.arg ⟨x, y⟩ + π + 2 * π * k := by
  have hne : (⟨x, y⟩ : ℂ) ≠ 0 := fun h => hx.ne (congrArg Complex.re h)
  have hopposite : arctan (y / x) = Complex.arg (-⟨x, y⟩) := by
    rw [← neg_div_neg_eq]
    exact arctan_div_eq_arg (neg_pos.2 hx)
  have hangle := Complex.arg_neg_coe_angle hne
  rw [← hopposite, ← Real.Angle.coe_add, Real.Angle.angle_eq_iff_two_pi_dvd_sub] at hangle
  obtain ⟨k, hk⟩ := hangle
  exact ⟨k, by linarith⟩

end Angles

/-! ## Directions of points -/

/-- The angle in degrees of the vector `(cos xi, sinh eta)`, between -180 and 180. -/
noncomputable def direction (xi eta : ℝ) : ℝ :=
  Elementary.toDegrees (Complex.arg ⟨cos xi, sinh eta⟩)

theorem toDegrees_add_turns (x : ℝ) (k : ℤ) :
    Elementary.toDegrees (x + π + 2 * π * k) = Elementary.toDegrees x + 180 + 360 * k := by
  have hpi := pi_ne_zero
  simp only [toDegrees_real]
  field_simp
  ring

/-- Beyond a pole, a vector points away from the central meridian by more than a quarter of a turn. -/
theorem quarter_lt_abs_direction {xi : ℝ} (eta : ℝ) (hxi : cos xi < 0) : 90 < |direction xi eta| := by
  have hright : |Complex.arg ⟨cos xi, sinh eta⟩| ≤ π / 2 ↔ 0 ≤ cos xi :=
    Complex.abs_arg_le_pi_div_two_iff
  have hquarter : π / 2 < |Complex.arg ⟨cos xi, sinh eta⟩| :=
    lt_of_not_ge fun h => hxi.not_ge (hright.1 h)
  have hscale : 0 < 180 / π := by positivity
  rw [direction, toDegrees_real, abs_mul, abs_of_pos hscale]
  calc (90 : ℝ) = π / 2 * (180 / π) := by
        have hpi := pi_ne_zero
        field_simp
        norm_num
    _ < |Complex.arg ⟨cos xi, sinh eta⟩| * (180 / π) := by gcongr

/-- The longitude of a point, up to whole turns, has the direction of the point's vector exactly
before the poles, where the cosine is positive. Beyond them it has the opposite direction, so that it
is never a quarter of a turn away from the central meridian, although the vector then points further
away than that. -/
theorem lon_has_direction_iff_before_pole (zone : ℕ) {easting northing : ℝ}
    (hcos : cos (spherical easting northing).1 ≠ 0) :
    let place := spherical easting northing
    let lon := (unproject zone easting northing).1
    let meridian := (Zone.centralMeridian zone : ℝ)
    ((∃ turns : ℤ, lon = meridian + direction place.1 place.2 + 360 * turns) ↔ 0 < cos place.1) ∧
      (cos place.1 < 0 →
        90 < |direction place.1 place.2| ∧
        ∃ turns : ℤ, lon = meridian + direction place.1 place.2 + 180 + 360 * turns) ∧
      ∃ turns : ℤ, |lon - (meridian + 360 * turns)| < 90 := by
  intro place lon meridian
  obtain ⟨k, hlon⟩ : ∃ k : ℤ, lon = meridian
      + Elementary.toDegrees (arctan (sinh place.2 / cos place.1)) + 360 * k := by
    have hfst := unproject_fst zone easting northing
    simp only [unwrappedLon_real] at hfst
    exact ⟨_, by rw [Int.cast_neg, mul_neg, ← sub_eq_add_neg]; exact hfst⟩
  have hbeyond (h : cos place.1 < 0) :
      ∃ turns : ℤ, lon = meridian + direction place.1 place.2 + 180 + 360 * turns := by
    obtain ⟨l, hl⟩ := exists_arctan_div_eq_arg (y := sinh place.2) h
    refine ⟨l + k, ?_⟩
    rw [hlon, hl, toDegrees_add_turns, direction]
    push_cast
    ring
  refine ⟨⟨fun ⟨turns, hturns⟩ => ?_, fun h => ⟨k, ?_⟩⟩,
    fun h => ⟨quarter_lt_abs_direction _ h, hbeyond h⟩, k, ?_⟩
  · by_contra hneg
    obtain ⟨l, hl⟩ := hbeyond (lt_of_le_of_ne (not_lt.1 hneg) hcos)
    -- half a turn is no number of whole turns
    have hhalf : (1 : ℝ) = ((2 * (turns - l) : ℤ) : ℝ) := by
      push_cast
      linarith
    have hparity : (1 : ℤ) = 2 * (turns - l) := by exact_mod_cast hhalf
    omega
  · rw [hlon, arctan_div_eq_arg h, direction]
  · rw [hlon, add_assoc, add_sub_add_left_eq_sub, add_sub_cancel_right]
    exact abs_toDegrees_arctan_lt _

/-! ## Points that lie beyond the north pole -/

/-- Within 3000 km of the central meridian, the points to the north of the pole are those whose
vector points away from it. -/
theorem cos_spherical_neg {easting northing : ℝ} (heast : |easting - falseEasting| ≤ 3000000)
    (hlow : unit * (π / 2) < northing) (hhigh : northing ≤ unit * π) :
    cos (spherical easting northing).1 < 0 := by
  obtain ⟨xi, hxi⟩ : ∃ xi : ℝ, northing / unit = xi := ⟨_, rfl⟩
  obtain ⟨eta, heta⟩ : ∃ eta : ℝ, (easting - falseEasting) / unit = eta := ⟨_, rfl⟩
  have hspherical : (spherical easting northing).1 = xi - (Series.backward : Series ℝ).along xi eta := by
    simp only [spherical, hxi, heta]
    rfl
  have hnear : π / 2 < xi ∧ xi ≤ π := by
    rw [← hxi, lt_div_iff₀ unit_pos, div_le_iff₀ unit_pos, mul_comm, mul_comm π]
    exact ⟨hlow, hhigh⟩
  have hsmall : |eta| ≤ 1 / 2 := by
    rw [← heta, abs_div, abs_of_pos unit_pos, div_le_iff₀ unit_pos]
    linarith [le_unit]
  have hcorrection := Series.abs_along_le_half_pole _ Series.weight_backward (x := xi) hsmall
  rw [abs_sub_comm, abs_of_pos (sub_pos.2 hnear.1)] at hcorrection
  obtain ⟨hbelow, habove⟩ := abs_le.1 hcorrection
  rw [hspherical]
  apply cos_neg_of_pi_div_two_lt_of_lt
  · linarith
  · linarith

/-- 100 km east of the central meridian of zone 31, and about 100 km beyond the pole. -/
theorem lon_has_no_direction_beyond_pole :
    let place := spherical (600000 : ℝ) 10100000
    let lon := (unproject 31 (600000 : ℝ) 10100000).1
    cos place.1 ≠ 0 ∧ 90 < |direction place.1 place.2| ∧
      (¬ ∃ turns : ℤ, lon = Zone.centralMeridian 31 + direction place.1 place.2 + 360 * turns) ∧
      ∃ turns : ℤ, |lon - (Zone.centralMeridian 31 + 360 * turns)| < 90 := by
  intro place lon
  have hunit : (unit : ℝ) ≤ 6365000 := by
    norm_num [unit, centralScale, rectifyingRadius, thirdFlattening, flattening, majorAxis]
  have hpi : 3 < π ∧ π < 3.15 := ⟨pi_gt_three, pi_lt_d2⟩
  have hneg : cos place.1 < 0 := by
    apply cos_spherical_neg
    · rw [falseEasting_real]
      norm_num
    · nlinarith [unit_pos]
    · nlinarith [le_unit]
  obtain ⟨hiff, hbeyond, hnear⟩ := lon_has_direction_iff_before_pole 31 hneg.ne
  exact ⟨hneg.ne, (hbeyond hneg).1, fun h => hneg.not_gt (hiff.1 h), hnear⟩

end Utm
end UtmTiles
