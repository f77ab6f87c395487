import UtmTiles.Proofs.Binary64.Errors
import UtmTiles.Proofs.Tile.Reachable

/-!
# What the subtiles of a tile span

The subtiles of a tile should be as wide as the tile's cell, up to the tolerance. The number of pixels
that makes them so is a quotient of two products, each of them rounded, and then rounded to a whole
number. Here the number that comes out is compared with the exact quotient.

Where the subtiles would need more pixels than there can be, or the width of the cell is too large for
a double, they get the largest number of pixels instead, however wide the cell is (`subtiles_span`).
-/

namespace UtmTiles

open Binary64

/-! ## Errors of a quotient -/

section Quotients

variable {A B S D P w : ℚ}

/-- Small relative errors of two numbers make a small relative error of their quotient. -/
theorem div_bounds {u : ℚ} (hu : 0 ≤ u) (hone : u < 1) (hA : 0 < A) (hB : 0 < B)
    (hS : |A - S| ≤ u * A) (hD : |B - D| ≤ u * B) :
    (1 - u) / (1 + u) * (A / B) ≤ S / D ∧ S / D ≤ (1 + u) / (1 - u) * (A / B) := by
  obtain ⟨hS_low, hS_high⟩ := abs_le.1 hS
  obtain ⟨hD_low, hD_high⟩ := abs_le.1 hD
  have hD_pos : 0 < D := by nlinarith
  have hS_nonneg : 0 ≤ S := by nlinarith
  rw [div_mul_div_comm, div_mul_div_comm]
  constructor
  · exact div_le_div₀ hS_nonneg (by linarith) hD_pos (by linarith)
  · exact div_le_div₀ (by positivity) (by linarith) (mul_pos (by linarith) hB) (by linarith)

/-- A quotient of two rounded numbers that is rounded again is near the exact quotient. -/
theorem quotient_bounds (hA : 0 < A) (hB : 0 < B) (hS : |A - S| ≤ 2 ^ (-53 : ℤ) * A)
    (hD : |B - D| ≤ 2 ^ (-53 : ℤ) * B) (hP : |S / D - P| ≤ 2 ^ (-53 : ℤ) * (S / D)) :
    |A / B - P| ≤ 7 * 2 ^ (-54 : ℤ) * P := by
  have hX : 0 < A / B := div_pos hA hB
  obtain ⟨hQ_low, hQ_high⟩ := div_bounds (by positivity) (by norm_num) hA hB hS hD
  obtain ⟨hP_low, hP_high⟩ := abs_le.1 hP
  generalize A / B = X at *
  generalize S / D = Q at *
  norm_num at hQ_low hQ_high hP_low hP_high ⊢
  rw [abs_le]
  constructor <;> linarith

/-- A whole number within the tolerance of a rounded quotient is near the exact quotient. -/
theorem whole_bounds (hB : 0 < B) (hnear : |A / B - P| ≤ 7 * 2 ^ (-54 : ℤ) * P)
    (hw : 0 < w) (hP : |P - w| ≤ (1 / 10 ^ 9 + 2 ^ (-80 : ℤ)) * w) :
    |B * w - A| ≤ (1 / 10 ^ 9 + 2 ^ (-51 : ℤ)) * (B * w) := by
  have hX : |w - A / B| ≤ (1 / 10 ^ 9 + 2 ^ (-51 : ℤ)) * w := by
    obtain ⟨hP_low, hP_high⟩ := abs_le.1 hP
    obtain ⟨hX_low, hX_high⟩ := abs_le.1 hnear
    generalize A / B = X at *
    norm_num at hP_low hP_high hX_low hX_high ⊢
    rw [abs_le]
    constructor <;> linarith
  have hproduct : B * w - A = B * (w - A / B) := by
    rw [mul_sub, mul_div_cancel₀ _ hB.ne']
  rw [hproduct, abs_mul, abs_of_pos hB, mul_left_comm]
  exact mul_le_mul_of_nonneg_left hX hB.le

end Quotients

/-! ## Pixels of a subtile -/

namespace Tile

theorem value_tolerance : value tolerance = 4835703278458517 * 2 ^ (-82 : ℤ) := rfl

/-- The number of pixels that a subtile should have, as a double. -/
def exactPixels (t : Tile Float) (ratio : ℕ) (resolution : Float) : Float :=
  t.grid.step / (Scalar.ofInt ratio * resolution)

/-- What a subdivision has passed. -/
theorem subdividedGrid_eq_ok {t : Tile Float} {ratio : ℕ} {resolution : Option Float}
    {pad : Option ℕ} {g : Grid Float} (h : t.subdividedGrid ratio resolution pad = .ok g) :
    0 < ratio ∧ ratio ∣ t.grid.tilesize ∧ g.IsValid ∧
      g.resolution = resolution.getD t.grid.resolution ∧
      let pixels := t.exactPixels ratio g.resolution
      ¬ tolerance * Scalar.round pixels < Scalar.abs (pixels - Scalar.round pixels) ∧
        g.tilesize = Scalar.pixels (Scalar.round pixels) := by
  have hvalid := isValid_subdividedGrid h
  simp only [subdividedGrid] at h
  split_ifs at h with hratio hresolution hpixels
  obtain ⟨-, -, -, rfl⟩ := Grid.make_eq_ok_iff.1 h
  rw [not_or, not_not] at hratio
  exact ⟨Nat.pos_of_ne_zero hratio.1, Nat.dvd_of_mod_eq_zero hratio.2, hvalid, rfl,
    (not_or.1 hpixels).2, rfl⟩

section Tolerance

variable {x y : Float} {n : ℕ}

/-- A difference of one half at most is not too large for a double, and has a small relative error. -/
theorem abs_sub_le_value (hx : x.isFinite = true) (hy : y.isFinite = true)
    (hnear : |value x - value y| ≤ 1 / 2) :
    (Scalar.abs (x - y)).isFinite = true ∧
      (1 - 2 ^ (-53 : ℤ)) * |value x - value y| ≤ value (Scalar.abs (x - y)) := by
  have herror := abs_sub_rounded_sub_le hx hy
  have hhigh := abs_sub_abs_le_abs_sub (rounded (value x - value y)) (value x - value y)
  have hlow := abs_sub_abs_le_abs_sub (value x - value y) (rounded (value x - value y))
  rw [abs_sub_comm (rounded _)] at hhigh
  have hrounded := isRounded_sub hx hy (by
    refine lt_of_le_two_pow ?_
    norm_num at herror ⊢
    linarith)
  obtain ⟨hfinite, hvalue⟩ := value_abs hrounded.isFinite
  rw [hvalue, hrounded.value]
  exact ⟨hfinite, by linarith⟩

/-- The tolerance for a whole number of pixels has a small relative error. -/
theorem value_tolerance_mul_le (hy : y.isFinite = true) (hn : 0 < n) (hvalue : value y = n) :
    (tolerance * y).isFinite = true ∧
      value (tolerance * y) ≤ (1 + 2 ^ (-53 : ℤ)) * (value tolerance * n) := by
  have hone : (1 : ℚ) ≤ n := by exact_mod_cast hn
  have hpos : 0 < value tolerance := by
    rw [value_tolerance]
    positivity
  have hsmall : value tolerance * n ≤ value y := by
    rw [hvalue, value_tolerance]
    norm_num
    linarith
  have hrounded := isRounded_mul (x := tolerance) rfl hy (by
    rw [hvalue, abs_of_nonneg (rounded_nonneg (by positivity))]
    refine (rounded_mono hsmall).trans_lt ?_
    rw [rounded_value hy]
    exact (le_abs_self _).trans_lt (isCanonical_of_isFinite hy).2)
  rw [hvalue] at hrounded
  have hlarge : (2 : ℚ) ^ (-1022 : ℤ) ≤ value tolerance * n := by
    calc (2 : ℚ) ^ (-1022 : ℤ) ≤ 2 ^ (-82 : ℤ) :=
          zpow_le_zpow_right₀ (by norm_num) (by norm_num)
      _ ≤ value tolerance * n := by
          rw [value_tolerance]
          norm_num
          linarith
  obtain ⟨hlow, -⟩ := abs_le.1 (abs_sub_rounded_le (by positivity) (Or.inl hlarge))
  rw [hrounded.value]
  exact ⟨hrounded.isFinite, by linarith⟩

/-- A whole number of pixels that is within the tolerance in doubles is so in exact numbers, up to
the error of the test. -/
theorem within_tolerance (hx : x.isFinite = true) (hy : y.isFinite = true) (hn : 0 < n)
    (hvalue : value y = n) (hnear : |value x - n| ≤ 1 / 2)
    (h : ¬ tolerance * y < Scalar.abs (x - y)) :
    |value x - n| ≤ (1 / 10 ^ 9 + 2 ^ (-80 : ℤ)) * n := by
  obtain ⟨hdifference, hlow⟩ := abs_sub_le_value hx hy (hvalue ▸ hnear)
  obtain ⟨hproduct, hhigh⟩ := value_tolerance_mul_le hy hn hvalue
  rw [lt_iff hproduct hdifference, not_lt] at h
  rw [value_tolerance] at hhigh
  rw [hvalue] at hlow
  have hone : (1 : ℚ) ≤ n := by exact_mod_cast hn
  norm_num at hlow hhigh ⊢
  linarith

end Tolerance

/-- The count that a double which is not negative stands for once it is rounded. -/
theorem exists_whole {x : Float} (hx : x.isFinite = true) (h : 0 ≤ value x) :
    ∃ n : ℕ, (Scalar.round x).isFinite = true ∧ value (Scalar.round x) = n ∧
      |value x - n| ≤ 1 / 2 ∧ Scalar.pixels (Scalar.round x) = min n 4294967295 := by
  obtain ⟨n, hfinite, hvalue, hhalf⟩ := value_round hx h
  exact ⟨n, hfinite, hvalue, hhalf, pixels_of_value hfinite hvalue⟩

/-- Pixels that are not finite and can be counted are all that there can be. -/
theorem pixels_of_not_isFinite {x : Float} (hx : x.isFinite = false)
    (h : 0 < Scalar.pixels (Scalar.round x)) : Scalar.pixels (Scalar.round x) = 4294967295 :=
  (pixels_round_of_not_isFinite hx).resolve_left h.ne'

/-- The double `x` is the quotient of two lengths, each of them rounded, and rounded again. -/
structure IsQuotientOf (x : Float) (A B : ℚ) : Prop where
  left_pos : 0 < A
  right_pos : 0 < B
  left_near : |A - rounded A| ≤ 2 ^ (-53 : ℤ) * A
  right_near : |B - rounded B| ≤ 2 ^ (-53 : ℤ) * B
  isDoubleOf : IsDoubleOf x (rounded A / rounded B)

namespace IsQuotientOf

variable {A B : ℚ} {x : Float}

theorem bounds (h : IsQuotientOf x A B) :
    (1 - 2 ^ (-53 : ℤ)) / (1 + 2 ^ (-53 : ℤ)) * (A / B) ≤ rounded A / rounded B ∧
      rounded A / rounded B ≤ (1 + 2 ^ (-53 : ℤ)) / (1 - 2 ^ (-53 : ℤ)) * (A / B) :=
  div_bounds (by positivity) (by norm_num) h.left_pos h.right_pos h.left_near h.right_near

theorem isRounded (h : IsQuotientOf x A B) (hx : x.isFinite = true) :
    IsRounded x (rounded A / rounded B) :=
  h.isDoubleOf.isRounded (h.isDoubleOf.isFinite_iff.1 hx)

/-- The double is finite if the quotient is about a number of pixels. -/
theorem isFinite_of_le (h : IsQuotientOf x A B) (hfits : A ≤ B * 4294967295) :
    x.isFinite = true := by
  have hquotient : A / B ≤ 4294967295 := (div_le_iff₀' h.right_pos).2 hfits
  obtain ⟨-, hhigh⟩ := h.bounds
  have hle : rounded A / rounded B ≤ (2 ^ 33 : ℤ) := by
    norm_num at hhigh ⊢
    linarith
  have hsmall := rounded_mono hle
  rw [rounded_intCast (by norm_num)] at hsmall
  have hnonneg : 0 ≤ rounded A / rounded B :=
    div_nonneg (rounded_nonneg h.left_pos.le) (rounded_nonneg h.right_pos.le)
  rw [h.isDoubleOf.isFinite_iff, abs_of_nonneg (rounded_nonneg hnonneg)]
  exact lt_of_le_two_pow (hsmall.trans (by norm_num))

theorem value_nonneg (h : IsQuotientOf x A B) (hx : x.isFinite = true) : 0 ≤ value x := by
  rw [(h.isRounded hx).value]
  exact rounded_nonneg (div_nonneg (rounded_nonneg h.left_pos.le) (rounded_nonneg h.right_pos.le))

/-- A quotient of half a pixel at least has a small relative error. -/
theorem abs_sub_le (h : IsQuotientOf x A B) (hx : x.isFinite = true) (hhalf : 1 / 2 ≤ value x) :
    |A / B - value x| ≤ 7 * 2 ^ (-54 : ℤ) * value x := by
  have hrounded := h.isRounded hx
  have hlarge : 1 / 4 < rounded A / rounded B := by
    by_contra hle
    have hmono := rounded_mono (not_lt.1 hle)
    have hquarter : rounded (1 / 4) = 1 / 4 := rounded_of_eq (m := 1) (e := -2) (by norm_num)
      (by norm_num) (by norm_num)
    rw [← hrounded.value, hquarter] at hmono
    linarith
  refine quotient_bounds h.left_pos h.right_pos h.left_near h.right_near ?_
  rw [hrounded.value]
  refine abs_sub_rounded_le (by linarith) (Or.inl (le_trans ?_ hlarge.le))
  calc (2 : ℚ) ^ (-1022 : ℤ) ≤ 2 ^ (-2 : ℤ) := zpow_le_zpow_right₀ (by norm_num) (by norm_num)
    _ = 1 / 4 := by norm_num

/-- If the pixels can be counted then their number is right up to the tolerance. -/
theorem span_bounds (h : IsQuotientOf x A B) (hfits : A ≤ B * 4294967295)
    (hpixels : 0 < Scalar.pixels (Scalar.round x))
    (hnear : ¬ tolerance * Scalar.round x < Scalar.abs (x - Scalar.round x)) :
    |B * Scalar.pixels (Scalar.round x) - A| ≤
      (1 / 10 ^ 9 + 2 ^ (-51 : ℤ)) * (B * Scalar.pixels (Scalar.round x)) := by
  have hx := h.isFinite_of_le hfits
  obtain ⟨n, hfinite, hvalue, hhalf, hcount⟩ := exists_whole hx (h.value_nonneg hx)
  have hn : 0 < n := by omega
  have hone : (1 : ℚ) ≤ n := by exact_mod_cast hn
  obtain ⟨hhalf_low, hhalf_high⟩ := abs_le.1 hhalf
  have herror := h.abs_sub_le hx (by linarith)
  -- rounding the quotient does not take it beyond the largest number of pixels
  have hmax : n ≤ 4294967295 := by
    have hquotient : A / B ≤ 4294967295 := (div_le_iff₀' h.right_pos).2 hfits
    obtain ⟨herror_low, -⟩ := abs_le.1 herror
    have hlt : (n : ℚ) < 4294967296 := by
      norm_num at herror_low
      linarith
    exact Nat.le_of_lt_succ (by exact_mod_cast hlt)
  rw [hcount, min_eq_left hmax]
  exact whole_bounds h.right_pos herror (by linarith)
    (within_tolerance hx hfinite hn hvalue hhalf hnear)

/-- If there are too many pixels to be counted then the largest number of them is taken. -/
theorem pixels_of_large (h : IsQuotientOf x A B) (hlarge : B * 4294967295 < A)
    (hpixels : 0 < Scalar.pixels (Scalar.round x)) :
    Scalar.pixels (Scalar.round x) = 4294967295 := by
  cases hx : x.isFinite with
  | false => exact pixels_of_not_isFinite hx hpixels
  | true =>
    have hquotient : 4294967295 < A / B := (lt_div_iff₀' h.right_pos).2 hlarge
    obtain ⟨n, -, -, hhalf, hcount⟩ := exists_whole hx (h.value_nonneg hx)
    have hone : (1 : ℚ) ≤ n := by
      have hn : 0 < n := by omega
      exact_mod_cast hn
    obtain ⟨hhalf_low, hhalf_high⟩ := abs_le.1 hhalf
    obtain ⟨-, herror⟩ := abs_le.1 (h.abs_sub_le hx (by linarith))
    have hlt : (4294967294 : ℚ) < n := by
      norm_num at herror
      linarith
    rw [hcount, min_eq_right]
    exact Nat.succ_le_of_lt (by exact_mod_cast hlt)

end IsQuotientOf

/-! ## Lengths of cells -/

section Meters

variable {n : ℕ} {resolution : Float}

/-- A number of pixels has a positive length, which is rounded with a small relative error. -/
theorem abs_sub_rounded_meters_le (hresolution : Grid.IsResolution resolution) (hn : 0 < n) :
    0 < n * value resolution ∧
      |n * value resolution - rounded (n * value resolution)| ≤
        2 ^ (-53 : ℤ) * (n * value resolution) := by
  have hpos : 0 < value resolution := (lt_iff rfl hresolution.1).1 hresolution.2
  exact ⟨mul_pos (by exact_mod_cast hn) hpos, abs_sub_rounded_mul_le hresolution.1 hpos n⟩

theorem isRounded_or_isInf_meters (hresolution : Grid.IsResolution resolution) (hn : n ≤ 4294967295) :
    IsRounded (Scalar.ofInt n * resolution) (n * value resolution) ∨
      (Scalar.ofInt (α := Float) n * resolution).isInf = true :=
  isRounded_or_isInf_ofInt_mul hresolution.1 (by omega)

end Meters

section Subdivision

variable {t : Tile Float} {ratio : ℕ} {resolution : Float}

/-- The pixels of a subtile, as long as neither width is too large for a double. -/
theorem isQuotientOf_exactPixels (ht : t.grid.IsValid) (hresolution : Grid.IsResolution resolution)
    (hratio : 0 < ratio)
    (hstep : IsRounded t.grid.step (t.grid.tilesize * value t.grid.resolution))
    (hwidth : IsRounded (Scalar.ofInt ratio * resolution) (ratio * value resolution)) :
    IsQuotientOf (t.exactPixels ratio resolution) (t.grid.tilesize * value t.grid.resolution)
      (ratio * value resolution) := by
  obtain ⟨hcell, hcell_error⟩ := abs_sub_rounded_meters_le ht.resolution ht.tilesize
  obtain ⟨hunit, hunit_error⟩ := abs_sub_rounded_meters_le hresolution hratio
  have hpos : 0 < rounded (ratio * value resolution) := by
    obtain ⟨-, hhigh⟩ := abs_le.1 hunit_error
    norm_num at hhigh
    linarith
  have hquotient := isDoubleOf_div hstep.isFinite hwidth.isFinite (hwidth.value ▸ hpos.ne')
  rw [hstep.value, hwidth.value] at hquotient
  exact ⟨hcell, hunit, hcell_error, hunit_error, hquotient⟩

/-- A subtile whose width is too large for a double has no pixels. -/
theorem pixels_of_isInf (hstep : t.grid.step.isFinite = true)
    (hinf : (Scalar.ofInt (α := Float) ratio * resolution).isInf = true) :
    Scalar.pixels (Scalar.round (t.exactPixels ratio resolution)) = 0 := by
  have hzero := isRounded_div_of_isInf hstep hinf
  have hvalue : value (t.exactPixels ratio resolution) = 0 := hzero.value.trans rounded_zero
  obtain ⟨n, -, -, hhalf, hcount⟩ := exists_whole hzero.isFinite hvalue.ge
  rw [hzero.value, rounded_zero, zero_sub, abs_neg, Nat.abs_cast] at hhalf
  have hn : n < 1 := by
    have hlt : (n : ℚ) < 1 := by linarith
    exact_mod_cast hlt
  change Scalar.pixels (Scalar.round (t.grid.step / (Scalar.ofInt ratio * resolution))) = 0
  omega

end Subdivision

/-- The subtiles of a tile are as wide as its cell, up to the tolerance and the error of the test for
it, unless they would need too many pixels or the width of the cell is too large for a double. Then
they have as many pixels as there can be, and no padding. -/
theorem subtiles_span {t : Tile Float} (ht : t.grid.IsValid) {ratio : ℕ} {resolution : Option Float}
    {pad : Option ℕ} {s : Subtiles Float} (h : t.subtiles ratio resolution pad = .ok s) :
    let cell : ℚ := t.grid.tilesize * value t.grid.resolution
    let span (tilesize : ℕ) : ℚ := ratio * value s.grid.resolution * tilesize
    s.grid.resolution = resolution.getD t.grid.resolution ∧
      (t.grid.step.isFinite = true → cell ≤ span 4294967295 →
        |span s.grid.tilesize - cell| ≤ (1 / 10 ^ 9 + 2 ^ (-51 : ℤ)) * span s.grid.tilesize) ∧
      (t.grid.step.isFinite = false ∨ span 4294967295 < cell →
        s.grid.tilesize = 4294967295 ∧ s.grid.pad = 0) := by
  intro cell span
  obtain ⟨g, hg, h⟩ := bind_eq_ok_iff.1 h
  obtain ⟨_, -, h⟩ := bind_eq_ok_iff.1 h
  cases h
  obtain ⟨hratio, hdvd, hvalid, hresolution, hnear, htilesize⟩ := subdividedGrid_eq_ok hg
  refine ⟨hresolution, ?_⟩
  have hall : g.tilesize = 4294967295 → g.tilesize = 4294967295 ∧ g.pad = 0 := fun hsize => by
    have hraster : g.tilesize + 2 * g.pad ≤ 4294967295 := hvalid.raster
    omega
  have hsize : t.grid.tilesize ≤ 4294967295 := (Nat.le_add_right _ _).trans ht.raster
  have hratio_le : ratio ≤ 4294967295 := (Nat.le_of_dvd ht.tilesize hdvd).trans hsize
  have hpixels : 0 < Scalar.pixels (Scalar.round (t.exactPixels ratio g.resolution)) :=
    htilesize ▸ hvalid.tilesize
  simp only [cell, span, htilesize, Nat.cast_ofNat] at hall ⊢
  rcases isRounded_or_isInf_meters ht.resolution hsize with hstep | hstep
  · rcases isRounded_or_isInf_meters hvalid.resolution hratio_le with hwidth | hwidth
    · have hquotient := isQuotientOf_exactPixels ht hvalid.resolution hratio hstep hwidth
      refine ⟨fun _ hfits => hquotient.span_bounds hfits hpixels hnear, fun hlarge => hall ?_⟩
      rcases hlarge with hinfinite | hlarge
      · exact absurd hstep.isFinite (Bool.eq_false_iff.1 hinfinite)
      · exact hquotient.pixels_of_large hlarge hpixels
    · exact absurd (pixels_of_isInf hstep.isFinite hwidth) hpixels.ne'
  · have hinfinite : t.grid.step.isFinite = false := not_isFinite_of_isInf hstep
    refine ⟨fun hfinite => absurd hfinite (Bool.eq_false_iff.1 hinfinite), fun _ => hall ?_⟩
    exact pixels_of_not_isFinite (not_isFinite_div_of_isInf hstep) hpixels

/-- A cell of five million kilometers, in pixels of one meter: its only subtile is shorter than it. -/
theorem subtiles_span_of_long_cell :
    ∃ s : Subtiles Float, subtiles ⟨⟨5000000000.0, 1, 0⟩, 15, 0, 0⟩ 1 (some 1.0) none = .ok s ∧
      s.grid.tilesize = 4294967295 ∧
      1 * value s.grid.resolution * s.grid.tilesize < 1 * value 5000000000.0 := by
  have hvalid : Grid.IsValid ⟨5000000000.0, 1, 0⟩ := ⟨by decide, by decide, by decide⟩
  have hok : (subtiles (⟨⟨5000000000.0, 1, 0⟩, 15, 0, 0⟩ : Tile Float) 1 (some 1.0) none).isOk =
      true := by
    decide +kernel
  cases hsubtiles : subtiles (⟨⟨5000000000.0, 1, 0⟩, 15, 0, 0⟩ : Tile Float) 1 (some 1.0) none with
  | error e =>
    rw [hsubtiles] at hok
    cases hok
  | ok s =>
    have hcell : value 5000000000.0 = 5242880000000000 * 2 ^ (-20 : ℤ) := rfl
    have hone : value 1.0 = 4503599627370496 * 2 ^ (-52 : ℤ) := rfl
    obtain ⟨hresolution, -, hlong⟩ := subtiles_span hvalid hsubtiles
    have hresolution_value : value s.grid.resolution = 1 := by
      rw [hresolution]
      exact hone.trans (by norm_num)
    have hcell_value : value 5000000000.0 = 5000000000 := hcell.trans (by norm_num)
    obtain ⟨htilesize, -⟩ := hlong (Or.inr (by norm_num [hresolution_value, hcell_value]))
    refine ⟨s, rfl, htilesize, ?_⟩
    rw [htilesize, hresolution_value, hcell_value]
    norm_num

end Tile
end UtmTiles
