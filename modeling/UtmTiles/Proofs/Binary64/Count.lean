import UtmTiles.Proofs.Binary64.Quotient

/-!
# Counts of squares

A count is a double rounded down, between 0 and the largest count (`floorCount_pack`). The number of
squares that an area holds is the count of its quotient by the square of their side. The square of a
side may be rounded to zero or be too large for a double: then any area holds the largest count, or
none. `squaresIn` is that number as a function of the exact area and side (`floorCount_div_square`).

The sides of real tiles are not so small. If a side is not below 1 then there are at most as many
squares as the area has units (`squaresIn_le`).
-/

namespace UtmTiles
namespace Binary64

open Float.Model (UnpackedFloat)
open Float.Model.Format (binary64)
open Float.Model.UnpackedFloat (Sign Accuracy)

def maxCount : ℕ := 2 ^ 64 - 1

/-! ## Counts of results -/

section Counts

variable {x y : Float}

theorem floorCount_eq (hx : x.isFinite = true) :
    Scalar.floorCount x = min ⌊value x⌋₊ maxCount :=
  count_eq hx 64

theorem floorCount_le (x : Float) : Scalar.floorCount x ≤ maxCount := by
  change count 64 x ≤ maxCount
  unfold count
  split
  · split
    · exact Nat.zero_le _
    · exact Nat.min_le_right _ _
  · split
    · exact Nat.zero_le _
    · exact le_rfl

/-- The count at the negative or at the positive end. -/
def endCount : Sign → ℕ
  | .negative => 0
  | .positive => maxCount

theorem floorCount_infinity {s : Sign} (hx : x.toModel.unpack = .infinity s) :
    Scalar.floorCount x = endCount s := by
  obtain ⟨hparts, hnan, hlt⟩ := infinity_cases hx
  change count 64 x = _
  simp only [count, hparts, hnan, Bool.false_eq_true, false_or]
  cases s with
  | negative => rw [if_pos (hlt.2 rfl), endCount]
  | positive =>
    have hnot : ¬ x < 0.0 := fun h => by cases hlt.1 h
    exact if_neg hnot

/-- The count of a result is that of the exact result, rounded to a double. -/
theorem floorCount_pack {u : UnpackedFloat} {q : ℚ} (hu : IsNearest u q) :
    Scalar.floorCount (.ofModel (.pack u) : Float) = min ⌊rounded q⌋₊ maxCount := by
  rcases lt_or_ge |rounded q| (2 ^ 1024) with hsmall | hlarge
  · have hrounded := isRounded_ofModel_pack hu hsmall
    rw [floorCount_eq hrounded.isFinite, hrounded.value]
  · rw [← hu.value] at hlarge ⊢
    obtain ⟨s, r, hs, hvalue, hr⟩ := unpack_pack_of_large hu.isCanonical hlarge
    have hcount : Scalar.floorCount (.ofModel (.pack u) : Float) = endCount s :=
      floorCount_infinity hs
    rw [hcount, hvalue]
    cases s with
    | negative =>
      have hneg : signed .negative r ≤ 0 := neg_nonpos.2 ((pow_pos two_pos 1024).le.trans hr)
      rw [Nat.floor_of_nonpos hneg, Nat.zero_min, endCount]
    | positive =>
      have hpower : (2 : ℚ) ^ 64 ≤ 2 ^ 1024 := pow_le_pow_right₀ (by norm_num) (by norm_num)
      have hmax : (maxCount : ℚ) ≤ 2 ^ 64 := by norm_num [maxCount]
      have hfloor : maxCount ≤ ⌊signed .positive r⌋₊ := Nat.le_floor (hmax.trans (hpower.trans hr))
      rw [min_eq_right hfloor, endCount]

theorem floorCount_div (hx : x.isFinite = true) (hy : y.isFinite = true) (hne : value y ≠ 0) :
    Scalar.floorCount (x / y) = min ⌊rounded (value x / value y)⌋₊ maxCount :=
  floorCount_pack (isNearest_div (isCanonical_of_isFinite hx).1 (isCanonical_of_isFinite hy).1 hne)

theorem floorCount_div_infinity (hx : x.isFinite = true) (hy : y.isInf = true) :
    Scalar.floorCount (x / y) = 0 := by
  have hzero := isRounded_div_of_isInf hx hy
  rw [floorCount_eq hzero.isFinite, hzero.value, rounded_zero, Nat.floor_zero, Nat.zero_min]

/-- A quotient by zero counts as much as possible if it is positive. -/
theorem floorCount_div_zero (hx : x.isFinite = true) (hy : y.toModel.unpack = .zero .positive) :
    Scalar.floorCount (x / y) = if 0 < value x then maxCount else 0 := by
  have hnan : Scalar.floorCount (.ofModel (.pack .notANumber) : Float) = 0 := rfl
  have hinf : ∀ s, (Float.Model.pack (.infinity s)).unpack = .infinity s := fun s => by
    cases s <;> rfl
  change Scalar.floorCount
    (.ofModel (.pack (x.toModel.unpack.div binary64 y.toModel.unpack)) : Float) = _
  rw [hy, value]
  rcases unpack_of_isFinite hx with ⟨s, hs⟩ | ⟨s, m, e, hm, hs⟩
  · rw [hs]
    exact hnan.trans (if_neg (lt_irrefl 0)).symm
  · have hpos : (0 : ℚ) < m * 2 ^ e := mul_pos (by exact_mod_cast hm) (by positivity)
    have hdiv : UnpackedFloat.div binary64 (.finite s m e hm) (.zero .positive) = .infinity s := by
      cases s <;> rfl
    have hcount : Scalar.floorCount (.ofModel (.pack (.infinity s)) : Float) = endCount s :=
      floorCount_infinity (hinf s)
    rw [hs, hdiv, hcount, exactValue]
    cases s with
    | negative => exact (if_neg (neg_lt_zero.2 hpos).not_gt).symm
    | positive => exact (if_pos hpos).symm

end Counts

/-! ## Squares -/

/-- Rounding to zero keeps the sign. -/
theorem eq_zero_of_roundWithAccuracy {s : Sign} {m : ℕ} {e : ℤ} {a : Accuracy}
    (h : exactValue (UnpackedFloat.roundWithAccuracy binary64 s m e a) = 0) :
    UnpackedFloat.roundWithAccuracy binary64 s m e a = .zero s := by
  unfold UnpackedFloat.roundWithAccuracy at *
  dsimp only at *
  split_ifs at h ⊢ with hmantissa
  · rfl
  · rw [← abs_eq_zero, abs_exactValue_finite, mul_eq_zero, Nat.cast_eq_zero] at h
    exact absurd h (not_or.2 ⟨hmantissa, by positivity⟩)

section Squares

variable {area side : Float}

/-- A square that is too small for a double becomes the zero without a minus sign, so that quotients by
it have the sign of the area. -/
theorem unpack_square_zero (hside : side.isFinite = true) (hpos : 0 < value side)
    (h : rounded (value side * value side) = 0) :
    (side * side).toModel.unpack = .zero .positive := by
  have hcanonical := (isCanonical_of_isFinite hside).1
  have hnearest := isNearest_mul hcanonical hcanonical
  have hzero := hnearest.value.trans h
  have hsmall : |exactValue (side.toModel.unpack.mul binary64 side.toModel.unpack)| < 2 ^ 1024 := by
    rw [hzero, abs_zero]
    positivity
  change (Float.Model.pack (side.toModel.unpack.mul binary64 side.toModel.unpack)).unpack = _
  rw [unpack_pack hnearest.isCanonical hsmall]
  rcases unpack_of_isFinite hside with ⟨s, hs⟩ | ⟨s, m, e, hm, hs⟩
  · rw [value, hs] at hpos
    exact absurd hpos (lt_irrefl 0)
  · rw [hs] at hzero ⊢
    refine (eq_zero_of_roundWithAccuracy hzero).trans ?_
    cases s <;> rfl

/-- The number of squares that an area holds. -/
def squaresIn (area side : ℚ) : ℕ :=
  if rounded (side * side) = 0 then if 0 < area then maxCount else 0
  else if 2 ^ 1024 ≤ rounded (side * side) then 0
  else min ⌊rounded (area / rounded (side * side))⌋₊ maxCount

theorem floorCount_div_square (harea : area.isFinite = true) (hside : side.isFinite = true)
    (hpos : 0 < value side) :
    Scalar.floorCount (area / (side * side)) = squaresIn (value area) (value side) := by
  unfold squaresIn
  split_ifs with hzero harea' hlarge
  · rw [floorCount_div_zero harea (unpack_square_zero hside hpos hzero), if_pos harea']
  · rw [floorCount_div_zero harea (unpack_square_zero hside hpos hzero), if_neg harea']
  · rcases isFinite_or_isInf_mul hside hside with hrounded | hinf
    · have hsmall := (isCanonical_of_isFinite hrounded.isFinite).2
      rw [hrounded.value] at hsmall
      exact absurd (hlarge.trans (le_abs_self _)) hsmall.not_ge
    · exact floorCount_div_infinity harea hinf
  · have hnonneg : 0 ≤ rounded (value side * value side) := rounded_nonneg (mul_self_nonneg _)
    have hrounded := isRounded_mul hside hside (by rwa [abs_of_nonneg hnonneg, ← not_le])
    have hne : value (side * side) ≠ 0 := by rwa [hrounded.value]
    rw [floorCount_div harea hrounded.isFinite hne, hrounded.value]

end Squares

theorem squaresIn_of_tiny {area side : ℚ} (hside : rounded (side * side) = 0) (harea : 0 < area) :
    squaresIn area side = maxCount := by
  rw [squaresIn, if_pos hside, if_pos harea]

/-- Squares with a side of 1 or more are at most as many as the area has units. -/
theorem squaresIn_le {area side : ℚ} (hside : 1 ≤ side) (harea : rounded area = area) :
    (squaresIn area side : ℚ) ≤ max 0 area := by
  have hsquare : 1 ≤ rounded (side * side) := by
    have hone : rounded ((1 : ℤ) : ℚ) = (1 : ℤ) := rounded_intCast (by norm_num)
    rw [Int.cast_one] at hone
    exact hone.ge.trans (rounded_mono (by nlinarith))
  have hpos := one_pos.trans_le hsquare
  have hmax : rounded (max 0 area) = max 0 area := by
    rcases max_choice 0 area with h | h <;> rw [h]
    · exact rounded_zero
    · exact harea
  have hquotient : area / rounded (side * side) ≤ max 0 area := by
    rw [div_le_iff₀ hpos]
    nlinarith [le_max_left 0 area, le_max_right 0 area]
  unfold squaresIn
  split_ifs with hzero _ hlarge
  · exact absurd hzero hpos.ne'
  · exact absurd hzero hpos.ne'
  · exact le_max_left 0 area
  · calc ((min ⌊rounded (area / rounded (side * side))⌋₊ maxCount : ℕ) : ℚ)
      _ ≤ (⌊max 0 area⌋₊ : ℚ) := by
        have hfloor := Nat.floor_mono ((rounded_mono hquotient).trans hmax.le)
        exact_mod_cast (min_le_left _ _).trans hfloor
      _ ≤ max 0 area := Nat.floor_le (le_max_left 0 area)

end Binary64
end UtmTiles
