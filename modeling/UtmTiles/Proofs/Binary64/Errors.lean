import UtmTiles.Proofs.Decimal.Literal

/-!
# Errors of rounding

Rounding changes a number by at most `2 ^ -53` of it, unless the number is very small and no multiple
of the smallest double (`abs_sub_rounded_le`). So products with whole numbers and differences always
have a small relative error.

A double that is not negative is rounded to a whole number at a distance of one half at most
(`value_round`). As a count it is rounded down, up to the largest count (`count_eq`), so a whole double
stands for as many pixels as it says (`pixels_of_value`).
-/

namespace UtmTiles
namespace Binary64

open Float.Model (UnpackedFloat)
open Float.Model.Format (binary64)

/-! ## Relative errors -/

/-- A number is rounded by half a unit at most. -/
theorem abs_sub_rounded_le_unit {q : ℚ} (hq : 0 < q) :
    |q - rounded q| ≤ 2 ^ unitExponent q / 2 := by
  have hunit : (0 : ℚ) < 2 ^ unitExponent q := by positivity
  have hscale : q - rounded q = (q / 2 ^ unitExponent q - units q) * 2 ^ unitExponent q := by
    rw [rounded_of_pos hq, roundedPos, sub_mul, div_mul_cancel₀ _ hunit.ne']
  rw [hscale, abs_mul, abs_of_pos hunit]
  have hhalf := abs_sub_nearestEven_le (q / 2 ^ unitExponent q)
  rw [← units] at hhalf
  linarith [mul_le_mul_of_nonneg_right hhalf hunit.le]

/-- The relative error of rounding. -/
theorem abs_sub_rounded_le {q : ℚ} (hq : 0 < q)
    (h : 2 ^ (-1022 : ℤ) ≤ q ∨ ∃ m : ℤ, q = m * 2 ^ (-1074 : ℤ)) :
    |q - rounded q| ≤ 2 ^ (-53 : ℤ) * q := by
  have hunit := abs_sub_rounded_le_unit hq
  have hhalf : ∀ u : ℤ, (2 : ℚ) ^ u / 2 = 2 ^ (-53 : ℤ) * 2 ^ (52 + u) := by
    intro u
    rw [zpow_add₀ (by norm_num)]
    norm_num
    ring
  by_cases hexponent : unitExponent q = -1074
  · rcases h with hnormal | ⟨m, hm⟩
    · rw [hexponent] at hunit
      calc |q - rounded q| ≤ 2 ^ (-1074 : ℤ) / 2 := hunit
        _ = 2 ^ (-53 : ℤ) * 2 ^ (-1022 : ℤ) := hhalf (-1074)
        _ ≤ 2 ^ (-53 : ℤ) * q := mul_le_mul_of_nonneg_left hnormal (by positivity)
    · -- a multiple of the smallest double is a double
      have hexact : rounded q = q := by
        rw [hm] at hexponent ⊢
        refine rounded_eq_of_unitExponent (hm ▸ hq) hexponent ?_
        rw [mul_div_cancel_right₀ _ (by positivity), nearestEven_intCast]
      rw [hexact, sub_self, abs_zero]
      positivity
  · have hlow := le_of_unitExponent hq hexponent
    calc |q - rounded q| ≤ 2 ^ unitExponent q / 2 := hunit
      _ = 2 ^ (-53 : ℤ) * 2 ^ (52 + unitExponent q) := hhalf _
      _ ≤ 2 ^ (-53 : ℤ) * q := mul_le_mul_of_nonneg_left hlow (by positivity)

/-- Doubles are multiples of the smallest one. -/
theorem exists_multiple {x : Float} (hx : x.isFinite = true) :
    ∃ m : ℤ, value x = m * 2 ^ (-1074 : ℤ) := by
  obtain ⟨p, hp, hvalue⟩ := parts?_eq hx
  have hexponent := (isCanonical_of_parts hp).le_exponent
  obtain ⟨k, hk⟩ := Int.le.dest hexponent
  refine ⟨p.signed * 2 ^ k, ?_⟩
  rw [← hvalue, Parts.value, ← hk, zpow_add₀ (by norm_num), zpow_natCast]
  generalize (2 : ℚ) ^ (-1074 : ℤ) = unit
  push_cast
  ring

/-- A multiple of the smallest double has a small relative error, whatever its size and sign. -/
theorem abs_sub_rounded_multiple_le (m : ℤ) :
    |m * 2 ^ (-1074 : ℤ) - rounded (m * 2 ^ (-1074 : ℤ))| ≤
      2 ^ (-53 : ℤ) * |(m : ℚ) * 2 ^ (-1074 : ℤ)| := by
  have hunit : (0 : ℚ) < 2 ^ (-1074 : ℤ) := by positivity
  rcases lt_trichotomy m 0 with hneg | rfl | hpos
  · have hmirror : (0 : ℚ) < (-m : ℤ) * 2 ^ (-1074 : ℤ) :=
      mul_pos (by exact_mod_cast neg_pos.2 hneg) hunit
    have herror := abs_sub_rounded_le hmirror (Or.inr ⟨-m, rfl⟩)
    rw [Int.cast_neg, neg_mul] at herror hmirror
    rw [rounded_neg, ← neg_sub_neg, neg_neg, neg_neg, abs_sub_comm] at herror
    rw [abs_of_neg (neg_pos.1 hmirror)]
    exact herror
  · rw [Int.cast_zero, zero_mul, rounded_zero, sub_zero, abs_zero, mul_zero]
  · have hvalue : (0 : ℚ) < m * 2 ^ (-1074 : ℤ) := mul_pos (by exact_mod_cast hpos) hunit
    rw [abs_of_pos hvalue]
    exact abs_sub_rounded_le hvalue (Or.inr ⟨m, rfl⟩)

/-! ## Operations -/

section Operations

variable {x y : Float}

/-- A product with a whole number has a small relative error. -/
theorem abs_sub_rounded_mul_le (hx : x.isFinite = true) (hpos : 0 < value x) (n : ℕ) :
    |n * value x - rounded (n * value x)| ≤ 2 ^ (-53 : ℤ) * (n * value x) := by
  obtain ⟨m, hm⟩ := exists_multiple hx
  have hproduct : (n : ℚ) * value x = (n * m : ℤ) * 2 ^ (-1074 : ℤ) := by
    rw [hm, Int.cast_mul, Int.cast_natCast, mul_assoc]
  have habs : |n * value x| = n * value x := abs_of_nonneg (mul_nonneg (Nat.cast_nonneg _) hpos.le)
  have herror := abs_sub_rounded_multiple_le (n * m)
  rw [← hproduct, habs] at herror
  exact herror

/-- A difference has a small relative error. -/
theorem abs_sub_rounded_sub_le (hx : x.isFinite = true) (hy : y.isFinite = true) :
    |value x - value y - rounded (value x - value y)| ≤
      2 ^ (-53 : ℤ) * |value x - value y| := by
  obtain ⟨m, hm⟩ := exists_multiple hx
  obtain ⟨n, hn⟩ := exists_multiple hy
  have hdifference : value x - value y = (m - n : ℤ) * 2 ^ (-1074 : ℤ) := by
    rw [hm, hn, ← sub_mul, Int.cast_sub]
  rw [hdifference]
  exact abs_sub_rounded_multiple_le (m - n)

theorem value_neg (hx : x.isFinite = true) : (-x).isFinite = true ∧ value (-x) = -value x := by
  have hcanonical := isCanonical_of_isFinite hx
  have hnearest := isNearest_exactValue (isCanonical_neg hcanonical.1)
  rw [exactValue_neg] at hnearest
  change IsNearest _ (-value x) at hnearest
  have hsame : rounded (-value x) = -value x := by
    rw [rounded_neg, rounded_value hx]
  have hneg := isRounded_ofModel_pack hnearest (by rw [hsame, abs_neg]; exact hcanonical.2)
  exact ⟨hneg.isFinite, hneg.value.trans hsame⟩

theorem value_abs (hx : x.isFinite = true) :
    (Scalar.abs x).isFinite = true ∧ value (Scalar.abs x) = |value x| := by
  unfold Scalar.abs
  split
  · next hneg =>
    have hvalue : value x < 0 := (lt_iff hx rfl).1 hneg
    rw [abs_of_neg hvalue]
    exact value_neg hx
  · next hnonneg =>
    have hvalue : 0 ≤ value x := not_lt.1 fun h => hnonneg ((lt_iff hx rfl).2 h)
    rw [abs_of_nonneg hvalue]
    exact ⟨hx, rfl⟩

/-- A product with a whole number is rounded once, or it is too large. -/
theorem isRounded_or_isInf_ofInt_mul (hx : x.isFinite = true) {n : ℕ} (hn : n < 2 ^ 53) :
    IsRounded (Float.ofInt n * x) (n * value x) ∨ (Float.ofInt n * x).isInf = true := by
  have hcount := isRounded_ofInt hn
  have hvalue := value_of_isRounded hcount (by rw [Nat.abs_cast]; exact_mod_cast hn)
  rw [Int.cast_natCast] at hvalue
  have hproduct := isFinite_or_isInf_mul hcount.isFinite hx
  rwa [hvalue] at hproduct

theorem isDoubleOf_div (hx : x.isFinite = true) (hy : y.isFinite = true) (hne : value y ≠ 0) :
    IsDoubleOf (x / y) (value x / value y) :=
  isDoubleOf_pack (isNearest_div (isCanonical_of_isFinite hx).1 (isCanonical_of_isFinite hy).1 hne)

/-- A quotient of an infinity is not finite, whatever it is divided by. -/
theorem not_isFinite_div_of_isInf (h : x.isInf = true) : (x / y).isFinite = false := by
  have hnan : (Float.Model.pack .notANumber).unpack.isFinite = false := rfl
  have hinf : ∀ s, (Float.Model.pack (.infinity s)).unpack.isFinite = false := fun s => by
    cases s <;> rfl
  obtain ⟨s, hs⟩ := unpack_of_isInf h
  change (Float.Model.pack (x.toModel.unpack.div binary64 y.toModel.unpack)).unpack.isFinite = false
  rw [hs]
  cases y.toModel.unpack with
  | notANumber => exact hnan
  | infinity t => exact hnan
  | zero t => exact hinf _
  | finite t n f hn => exact hinf _

/-- A finite quotient by an infinity is zero. -/
theorem isRounded_div_of_isInf (hx : x.isFinite = true) (h : y.isInf = true) :
    IsRounded (x / y) 0 := by
  have hzero : ∀ s, IsRounded (.ofModel (.pack (.zero s))) 0 := fun s =>
    isRounded_ofModel_pack ⟨trivial, rfl⟩ (by rw [rounded_zero, abs_zero]; positivity)
  obtain ⟨t, ht⟩ := unpack_of_isInf h
  change IsRounded (.ofModel (.pack (x.toModel.unpack.div binary64 y.toModel.unpack))) 0
  rw [ht]
  rcases unpack_of_isFinite hx with ⟨s, hs⟩ | ⟨s, m, e, hm, hs⟩
  · rw [hs]
    exact hzero _
  · rw [hs]
    exact hzero _

end Operations

/-! ## Whole doubles -/

theorem isFinite_of_parts {x : Float} {p : Parts} (h : parts? x = some p) : x.isFinite = true := by
  change x.toModel.unpack.isFinite = true
  rw [parts?_eq_ite] at h
  rcases unpack_cases x.toBits.toBitVec rfl rfl rfl with
    ⟨hexponent, -⟩ | ⟨-, -, hzero⟩ | ⟨-, hpos, hsub⟩ | ⟨-, -, hpos, hnormal⟩
  · rw [toNat_unpackExponent, UInt64.toNat_toBitVec] at hexponent
    rw [if_pos hexponent] at h
    cases h
  · rw [show x.toModel.unpack = _ from hzero]
    rfl
  · rw [show x.toModel.unpack = _ from hsub]
    rfl
  · rw [show x.toModel.unpack = _ from hnormal]
    rfl

theorem parts?_eq_none {x : Float} (hx : x.isFinite = false) : parts? x = none := by
  cases hp : parts? x with
  | none => rfl
  | some p =>
    rw [isFinite_of_parts hp] at hx
    cases hx

/-- A double that is not negative has the value of its mantissa and exponent; if it has a minus sign
then it is zero. -/
theorem exists_parts_of_nonneg {x : Float} (hx : x.isFinite = true) (h : 0 ≤ value x) :
    ∃ p, parts? x = some p ∧ value x = p.mantissa * 2 ^ p.exponent ∧
      (p.negative = true → p.mantissa = 0) := by
  obtain ⟨p, hp, hvalue⟩ := parts?_eq hx
  refine ⟨p, hp, ?_⟩
  have hunit : (0 : ℚ) < 2 ^ p.exponent := by positivity
  rw [← hvalue, Parts.value, Parts.signed] at h ⊢
  cases hsign : p.negative with
  | false => simp
  | true =>
    simp only [hsign, if_true, Int.cast_neg, Int.cast_natCast] at h ⊢
    have hzero : p.mantissa = 0 := by
      have hneg : (p.mantissa : ℚ) ≤ 0 := by
        by_contra hpos
        nlinarith
      exact_mod_cast le_antisymm hneg (Nat.cast_nonneg _)
    simp [hzero]

theorem Parts.whole_eq (p : Parts) : p.whole = ⌊(p.mantissa : ℚ) * 2 ^ p.exponent⌋₊ := by
  have hpower := zpow_mul_pow_toNat (b := 2) (by norm_num) p.exponent
  have hfraction : (p.mantissa : ℚ) * 2 ^ p.exponent =
      (p.mantissa * 2 ^ p.exponent.toNat : ℕ) / (2 ^ (-p.exponent).toNat : ℕ) := by
    push_cast
    rw [eq_div_iff (by positivity), mul_assoc, hpower]
  rw [hfraction, Nat.floor_div_eq_div]
  rfl

/-- The count of a finite double is its value rounded down, as far as there are counts. -/
theorem count_eq {x : Float} (hx : x.isFinite = true) (bits : ℕ) :
    count bits x = min ⌊value x⌋₊ (2 ^ bits - 1) := by
  obtain ⟨p, hp, hvalue⟩ := parts?_eq hx
  rw [← hvalue, Parts.value, Parts.signed]
  simp only [count, hp]
  cases p.negative with
  | false =>
    rw [Parts.whole_eq]
    rfl
  | true =>
    have hneg : ((-(p.mantissa : ℤ) : ℤ) : ℚ) * 2 ^ p.exponent ≤ 0 := by
      push_cast
      rw [neg_mul, neg_nonpos]
      positivity
    rw [if_pos rfl, if_pos rfl, Nat.floor_of_nonpos hneg, Nat.zero_min]

/-- The count that a whole double stands for. -/
theorem pixels_of_value {x : Float} (hx : x.isFinite = true) {n : ℕ} (h : value x = n) :
    Scalar.pixels x = min n 4294967295 := by
  change count 32 x = _
  rw [count_eq hx, h, Nat.floor_natCast]
  rfl

/-- Whole numbers with up to 53 bits are doubles. -/
theorem value_ofScaled {n : ℕ} (hn : n < 2 ^ 53) :
    (ofScaled false n 0).isFinite = true ∧ value (ofScaled false n 0) = n := by
  have hunfold : ofScaled false n 0 = Float.ofScientific n false 0 :=
    congrArg (Float.ofScientific · false 0) (Nat.mul_one n)
  have hdigits := isDoubleOf_ofScientific n 0 false (Nat.zero_le _)
  rw [← hunfold, if_neg Bool.false_ne_true, pow_zero, mul_one, ← Int.cast_natCast] at hdigits
  have habs : |(n : ℤ)| < 2 ^ 53 := by
    rw [Nat.abs_cast]
    exact_mod_cast hn
  have hrounded := hdigits.isRounded (abs_rounded_intCast_lt habs)
  exact ⟨hrounded.isFinite, value_of_isRounded hrounded habs⟩

/-- The whole number nearest to a fraction; a half is rounded up. -/
theorem abs_sub_nearest_le (m : ℕ) {d : ℕ} (hd : 0 < d) :
    |(m : ℚ) / d - ((2 * m + d) / (2 * d) : ℕ)| ≤ 1 / 2 := by
  have hlow := Nat.div_mul_le_self (2 * m + d) (2 * d)
  have hhigh := Nat.lt_mul_div_succ (2 * m + d) (show 0 < 2 * d by omega)
  generalize (2 * m + d) / (2 * d) = n at *
  have hlow' : (n : ℚ) * (2 * d) ≤ 2 * m + d := by exact_mod_cast hlow
  have hhigh' : (2 * m + d : ℚ) < 2 * d * (n + 1) := by exact_mod_cast hhigh
  have hpos : (0 : ℚ) < d := by exact_mod_cast hd
  have hfraction : (m : ℚ) / d * d = m := div_mul_cancel₀ _ hpos.ne'
  generalize (m : ℚ) / d = q at *
  rw [abs_le]
  constructor
  · by_contra hlt
    nlinarith
  · by_contra hlt
    nlinarith

/-- A double with a fraction is rounded to the whole number nearest to it, which has up to 53 bits. -/
theorem nearest_bounds {p : Parts} (hp : p.IsCanonical) (h : p.exponent < 0) :
    p.nearest < 2 ^ 53 ∧ (p.mantissa = 0 → p.nearest = 0) ∧
      |p.mantissa * 2 ^ p.exponent - (p.nearest : ℚ)| ≤ 1 / 2 := by
  obtain ⟨k, hk⟩ := Int.exists_eq_neg_ofNat h.le
  have hnearest : p.nearest = (2 * p.mantissa + 2 ^ k) / (2 * 2 ^ k) := by
    simp [Parts.nearest, hk]
  have hfraction : (p.mantissa : ℚ) * 2 ^ p.exponent = p.mantissa / (2 ^ k : ℕ) := by
    rw [hk, zpow_neg, zpow_natCast, div_eq_mul_inv]
    push_cast
    rfl
  have hone : 1 ≤ 2 ^ k := Nat.one_le_two_pow
  rw [hfraction, hnearest]
  refine ⟨?_, fun hzero => ?_, abs_sub_nearest_le p.mantissa hone⟩
  · have hmantissa := hp.mantissa_lt
    rw [Nat.div_lt_iff_lt_mul (by omega)]
    nlinarith
  · rw [hzero, Nat.mul_zero, Nat.zero_add]
    exact Nat.div_eq_of_lt (by omega)

/-- A double that is not negative is rounded to a whole number at a distance of one half at most. -/
theorem value_round {x : Float} (hx : x.isFinite = true) (h : 0 ≤ value x) :
    ∃ n : ℕ, (Scalar.round x).isFinite = true ∧ value (Scalar.round x) = n ∧
      |value x - n| ≤ 1 / 2 := by
  obtain ⟨p, hp, hvalue, hsign⟩ := exists_parts_of_nonneg hx h
  change ∃ n : ℕ, (round x).isFinite = true ∧ value (round x) = n ∧ _
  simp only [round, hp]
  by_cases hexponent : 0 ≤ p.exponent
  · obtain ⟨k, hk⟩ := Int.eq_ofNat_of_zero_le hexponent
    have hwhole : value x = (p.mantissa * 2 ^ k : ℕ) := by
      rw [hvalue, hk, zpow_natCast]
      push_cast
      rfl
    rw [if_pos hexponent]
    refine ⟨_, hx, hwhole, ?_⟩
    rw [hwhole, sub_self, abs_zero]
    norm_num
  · obtain ⟨hlt, hzero, hhalf⟩ := nearest_bounds (isCanonical_of_parts hp) (not_le.1 hexponent)
    rw [← hvalue] at hhalf
    rw [if_neg hexponent]
    cases hnegative : p.negative with
    | false =>
      obtain ⟨hfinite, hround⟩ := value_ofScaled hlt
      exact ⟨_, hfinite, hround, hhalf⟩
    | true =>
      rw [hzero (hsign hnegative)] at hhalf ⊢
      exact ⟨0, rfl, rfl, hhalf⟩

/-- Infinities and NaNs are left as they are, and stand for no pixels or for all that there can be. -/
theorem pixels_round_of_not_isFinite {x : Float} (hx : x.isFinite = false) :
    Scalar.pixels (Scalar.round x) = 0 ∨ Scalar.pixels (Scalar.round x) = 4294967295 := by
  have hnone := parts?_eq_none hx
  have hround : Scalar.round x = x := by
    change round x = x
    simp only [round, hnone]
  rw [hround]
  change count 32 x = 0 ∨ count 32 x = _
  simp only [count, hnone]
  split
  · exact Or.inl rfl
  · exact Or.inr rfl

end Binary64
end UtmTiles
