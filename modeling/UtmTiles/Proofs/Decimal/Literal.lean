import UtmTiles.Decimal.Reader
import UtmTiles.Proofs.Binary64.Nearest

/-!
# The double of a decimal number

Digits and a power of ten stand for a rational number, and they are read as the double nearest to it
(`isDoubleOf_nearest`). Powers of ten so far from zero that they are cut short make no difference to
that: beyond them there are only infinities on the one side and zero on the other.
-/

namespace UtmTiles
namespace Binary64

open Float.Model (UnpackedFloat)
open Float.Model.Format (binary64)
open Float.Model.UnpackedFloat (Sign)

/-! ## Very small and very large numbers -/

theorem rounded_eq_zero {q : ℚ} (hq : 0 ≤ q) (h : q < 2 ^ (-1075 : ℤ)) : rounded q = 0 := by
  rcases hq.eq_or_lt with rfl | hpos
  · exact rounded_zero
  · have hexponent : unitExponent q = -1074 := by
      refine unitExponent_eq hpos le_rfl (h.trans_le ?_) (Or.inr rfl)
      exact zpow_le_zpow_right₀ (by norm_num) (by norm_num)
    have hunit : (2 : ℚ) ^ (-1074 : ℤ) = 2 ^ (-1075 : ℤ) * 2 := by
      rw [← zpow_add_one₀ (by norm_num)]
      norm_num
    have hhalf : q / 2 ^ (-1074 : ℤ) < 1 / 2 := by
      rw [div_lt_iff₀ (by positivity), hunit]
      linarith
    have hnonneg : 0 ≤ q / 2 ^ (-1074 : ℤ) := by positivity
    have hunits : nearestEven (q / 2 ^ (-1074 : ℤ)) = 0 := by
      have hnear : |q / 2 ^ (-1074 : ℤ) - (0 : ℤ)| < 1 / 2 := by
        rw [Int.cast_zero, sub_zero, abs_of_nonneg hnonneg]
        exact hhalf
      exact nearestEven_of_near hnear.le fun htie => absurd htie hnear.ne
    rw [rounded_eq_of_unitExponent hpos hexponent hunits, Int.cast_zero, zero_mul]

theorem le_abs_rounded {q : ℚ} (h : 2 ^ 1024 ≤ q) : 2 ^ 1024 ≤ |rounded q| := by
  have hpower : rounded (2 ^ 1024) = 2 ^ 1024 := by
    refine rounded_of_eq (m := 2 ^ 52) (e := 972) (by norm_num) (by norm_num) ?_
    calc (2 : ℚ) ^ 1024 = 2 ^ (52 : ℤ) * 2 ^ (972 : ℤ) := by
          rw [← zpow_add₀ (by norm_num)]
          rfl
      _ = ((2 ^ 52 : ℤ) : ℚ) * 2 ^ (972 : ℤ) := by norm_num
  exact (hpower.ge.trans (rounded_mono h)).trans (le_abs_self _)

/-- Two numbers that are both too large become the same. -/
theorem IsDoubleOf.of_large {x : Float} {p q : ℚ} (h : IsDoubleOf x p) (hp : 2 ^ 1024 ≤ p)
    (hq : 2 ^ 1024 ≤ q) : IsDoubleOf x q :=
  ⟨fun hsmall => absurd hsmall (le_abs_rounded hq).not_gt, fun _ => h.isInf (le_abs_rounded hp)⟩

/-! ## Digits and a power of ten -/

/-- Small powers of ten are doubles. -/
theorem parts_powersOfTen : ∀ e : Fin Float.exactlyRepresentablePowersOfTen.size,
    Float.exactlyRepresentablePowersOfTen[e].isFinite = true ∧
      ∃ p, parts? Float.exactlyRepresentablePowersOfTen[e] = some p ∧ p.negative = false ∧
        p.mantissa * 2 ^ p.exponent.toNat = 10 ^ e.val * 2 ^ (-p.exponent).toNat := by
  decide +kernel

theorem value_powerOfTen (e : Fin Float.exactlyRepresentablePowersOfTen.size) :
    Float.exactlyRepresentablePowersOfTen[e].isFinite = true ∧
      value Float.exactlyRepresentablePowersOfTen[e] = 10 ^ e.val := by
  obtain ⟨hfinite, p, hp, hsign, hproduct⟩ := parts_powersOfTen e
  obtain ⟨r, hr, hvalue⟩ := parts?_eq hfinite
  obtain rfl := Option.some.inj (hp.symm.trans hr)
  refine ⟨hfinite, ?_⟩
  have hcast : (p.mantissa : ℚ) * 2 ^ p.exponent.toNat = 10 ^ e.val * 2 ^ (-p.exponent).toNat := by
    exact_mod_cast hproduct
  have hexponent : (2 : ℚ) ^ p.exponent = 2 ^ p.exponent.toNat / 2 ^ (-p.exponent).toNat := by
    rw [← zpow_natCast, ← zpow_natCast, ← zpow_sub₀ (by norm_num), Int.toNat_sub_toNat_neg]
  rw [← hvalue, Parts.value, Parts.signed, hsign, if_neg Bool.false_ne_true, Int.cast_natCast,
    hexponent, mul_div_assoc', hcast, mul_div_assoc, div_self (by positivity), mul_one]

/-- A quotient of whole numbers is rounded once. -/
theorem isNearest_quotient {m n : ℕ} (hm : 0 < m) (hn : 0 < n) :
    IsNearest ((UnpackedFloat.finite .positive m 0 hm).div binary64 (.finite .positive n 0 hn))
      ((m : ℚ) / n) := by
  obtain ⟨k, g, a, q, hcore, hq, hvalue, hstands, hlong, hlow⟩ :=
    divCore_spec (e := 0) (f := 0) hm hn
  have hquotient := isNearest_roundWithAccuracy (s := .positive) hq hstands hlong hlow
  rw [zpow_zero, mul_one, mul_one] at hvalue
  rw [hvalue] at hquotient
  change IsNearest (let d := UnpackedFloat.divCore binary64 m 0 n 0
    UnpackedFloat.roundWithAccuracy binary64 .positive d.1 d.2.1 d.2.2) _
  rw [hcore]
  exact hquotient

/-- A product of whole numbers is rounded once. -/
theorem isNearest_product {m n : ℕ} (hm : 0 < m) (hn : 0 < n) (hshift : 0 < m <<< 53) :
    IsNearest ((UnpackedFloat.finite .positive (m <<< 53) (-53) hshift).mul binary64
      (.finite .positive n 0 hn)) ((m : ℚ) * n) := by
  have hmn : 0 < m <<< 53 * n := Nat.mul_pos hshift hn
  have hvalue : ((m <<< 53 * n : ℕ) : ℚ) * 2 ^ (-53 : ℤ) = m * n := by
    rw [Nat.shiftLeft_eq]
    push_cast
    field_simp
    norm_num
  -- the shift makes the mantissa long enough
  have hone : (1 : ℚ) ≤ (m : ℚ) * n := by exact_mod_cast Nat.mul_pos hm hn
  have hlow : (-53 : ℤ) ≤ unitExponent (((m <<< 53 * n : ℕ) : ℚ) * 2 ^ (-53 : ℤ)) := by
    have hlog := (Int.zpow_le_iff_le_log (b := 2) (x := 0) (by norm_num)
      (zero_lt_one.trans_le hone)).1 (by rw [zpow_zero]; exact hone)
    rw [hvalue, unitExponent]
    omega
  have hproduct := isNearest_roundWithAccuracy (s := .positive) (by exact_mod_cast hmn)
    (Stands.exact (m <<< 53 * n)) (Or.inl hmn) hlow
  rw [hvalue] at hproduct
  exact hproduct

/-- Digits with a power of ten, neither of them beyond all doubles, are rounded once. -/
theorem isNearest_ofScientific (m : ℕ) {e : ℤ} (hlow : -(2 ^ 11 + m.log2 : ℤ) ≤ e)
    (hhigh : e ≤ 2 ^ 11) : IsNearest (UnpackedFloat.ofScientific binary64 m e) (m * 10 ^ e) := by
  unfold UnpackedFloat.ofScientific
  split
  · next hzero =>
    rw [hzero, Nat.cast_zero, zero_mul]
    exact ⟨trivial, rfl⟩
  · next hne =>
    have hm : 0 < m := Nat.pos_of_ne_zero hne
    rw [if_neg (not_lt.2 hhigh), if_neg (not_lt.2 hlow)]
    split
    · next he =>
      obtain ⟨k, rfl⟩ := Int.eq_ofNat_of_zero_le he
      have hproduct := isNearest_product hm (n := 10 ^ k) (by positivity)
        (by rw [Nat.shiftLeft_eq]; positivity)
      rw [zpow_natCast]
      exact_mod_cast hproduct
    · next he =>
      obtain ⟨k, rfl⟩ := Int.exists_eq_neg_ofNat (not_le.1 he).le
      have hquotient := isNearest_quotient hm (n := 10 ^ (- -(k : ℤ)).toNat) (by positivity)
      have hpower : ((10 ^ (- -(k : ℤ)).toNat : ℕ) : ℚ) = 10 ^ k := by
        rw [neg_neg, Int.toNat_natCast, Nat.cast_pow, Nat.cast_ofNat]
      rw [hpower] at hquotient
      rw [zpow_neg, zpow_natCast, ← div_eq_mul_inv]
      exact hquotient

/-- The number that digits with a power of ten stand for, as the library has it. -/
theorem mul_ten_zpow (m : ℚ) (k : ℕ) (negative : Bool) :
    m * 10 ^ (if negative then Int.negOfNat k else Int.ofNat k) =
      if negative then m / 10 ^ k else m * 10 ^ k := by
  cases negative with
  | false => exact congrArg (m * ·) (zpow_natCast 10 k)
  | true =>
    show m * 10 ^ Int.negOfNat k = m / 10 ^ k
    rw [Int.negOfNat_eq, Int.ofNat_eq_natCast, zpow_neg, zpow_natCast, div_eq_mul_inv]

/-- Digits with a power of ten become the double nearest to their value. -/
theorem isDoubleOf_ofScientific (m k : ℕ) (negative : Bool)
    (hk : k ≤ 2 ^ 11 + if negative then m.log2 else 0) :
    IsDoubleOf (Float.ofScientific m negative k)
      (if negative then m / 10 ^ k else m * 10 ^ k) := by
  unfold Float.ofScientific
  split
  · next hfast =>
    -- the digits and the power are both doubles, so one operation gives the result
    obtain ⟨hm, hlt⟩ := hfast
    have hdigits := isRounded_toFloat hm
    have hvalue := value_of_isRounded hdigits (by rw [Nat.abs_cast]; exact_mod_cast hm)
    obtain ⟨hfinite, hpower⟩ := value_powerOfTen ⟨k, Nat.lt_succ_of_le hlt⟩
    rw [Int.cast_natCast] at hvalue
    have hleft := (isCanonical_of_isFinite hdigits.isFinite).1
    have hright := (isCanonical_of_isFinite hfinite).1
    cases negative with
    | false =>
      have hproduct := isDoubleOf_pack (isNearest_mul hleft hright)
      change IsDoubleOf _ (value _ * value _) at hproduct
      rw [hvalue, hpower] at hproduct
      exact hproduct
    | true =>
      have hquotient := isDoubleOf_pack (isNearest_div hleft hright
        (show value _ ≠ 0 by rw [hpower]; positivity))
      change IsDoubleOf _ (value _ / value _) at hquotient
      rw [hvalue, hpower] at hquotient
      exact hquotient
  · rw [← mul_ten_zpow]
    refine isDoubleOf_pack (isNearest_ofScientific m ?_ ?_)
    · cases negative with
      | false => show _ ≤ (k : ℤ); omega
      | true =>
        show _ ≤ Int.negOfNat k
        rw [Int.negOfNat_eq, Int.ofNat_eq_natCast]
        simp only [if_true] at hk
        omega
    · cases negative with
      | false =>
        show (k : ℤ) ≤ _
        simp only [Bool.false_eq_true, if_false] at hk
        omega
      | true =>
        show Int.negOfNat k ≤ _
        rw [Int.negOfNat_eq, Int.ofNat_eq_natCast]
        omega

end Binary64

namespace Decimal

open Binary64

/-! ## Literals -/

theorem two_pow_le_ten_pow_exponentLimit : (2 : ℚ) ^ 1024 ≤ 10 ^ exponentLimit := by
  have hnat : 2 ^ 1024 ≤ 10 ^ exponentLimit := by decide +kernel
  exact_mod_cast hnat

theorem ten_pow_exponentLimit_lt : (1 : ℚ) / 10 ^ exponentLimit < 2 ^ (-1076 : ℤ) := by
  have hnat : 2 ^ 1076 < 10 ^ exponentLimit := by decide +kernel
  have hcast : (2 : ℚ) ^ 1076 < 10 ^ exponentLimit := by exact_mod_cast hnat
  have hpower : (2 : ℚ) ^ (-1076 : ℤ) = 1 / 2 ^ 1076 := by
    rw [zpow_neg, one_div]
    rfl
  rw [hpower]
  exact one_div_lt_one_div_of_lt (by positivity) hcast

/-- Beyond the limit, whole numbers are too large. -/
theorem le_mul_ten_pow {digits k : ℕ} (hdigits : 0 < digits) (hk : exponentLimit ≤ k) :
    (2 : ℚ) ^ 1024 ≤ digits * 10 ^ k := by
  have hone : (1 : ℚ) ≤ digits := by exact_mod_cast hdigits
  calc (2 : ℚ) ^ 1024 ≤ 10 ^ exponentLimit := two_pow_le_ten_pow_exponentLimit
    _ ≤ 10 ^ k := pow_le_pow_right₀ (by norm_num) hk
    _ ≤ digits * 10 ^ k := le_mul_of_one_le_left (by positivity) hone

/-- Beyond the limit, fractions are nearest to zero. -/
theorem rounded_div_ten_pow {digits k : ℕ} (hk : exponentLimit + digits.log2 ≤ k) :
    rounded ((digits : ℚ) / 10 ^ k) = 0 := by
  refine rounded_eq_zero (by positivity) ?_
  have hdigits : (digits : ℚ) < 2 ^ (digits.log2 + 1) := by exact_mod_cast Nat.lt_log2_self
  calc (digits : ℚ) / 10 ^ k ≤ digits / 10 ^ (exponentLimit + digits.log2) :=
        div_le_div_of_nonneg_left (by positivity) (by positivity)
          (pow_le_pow_right₀ (by norm_num) hk)
    _ = digits / 10 ^ digits.log2 * (1 / 10 ^ exponentLimit) := by
        rw [pow_add, div_mul_div_comm, mul_one, mul_comm (10 ^ exponentLimit : ℚ)]
    _ ≤ 2 * (1 / 10 ^ exponentLimit) := by
        refine mul_le_mul_of_nonneg_right ?_ (by positivity)
        rw [div_le_iff₀ (by positivity)]
        calc (digits : ℚ) ≤ 2 ^ (digits.log2 + 1) := hdigits.le
          _ = 2 * 2 ^ digits.log2 := pow_succ' 2 _
          _ ≤ 2 * 10 ^ digits.log2 := by gcongr; norm_num
    _ < 2 * 2 ^ (-1076 : ℤ) := by
        refine mul_lt_mul_of_pos_left ten_pow_exponentLimit_lt (by norm_num)
    _ = 2 ^ (-1075 : ℤ) := by
        rw [← zpow_one_add₀ (by norm_num)]
        norm_num

/-- Digits and an exponent are read as the double nearest to their value. -/
theorem isDoubleOf_nearest (digits : ℕ) (exponent : ℤ) :
    IsDoubleOf (nearest false digits exponent) (digits * 10 ^ exponent) := by
  cases exponent with
  | ofNat k =>
    show IsDoubleOf (Float.ofScientific digits false (min k exponentLimit)) _
    have hread := isDoubleOf_ofScientific digits (min k exponentLimit) false
      ((min_le_right _ _).trans ((show exponentLimit ≤ 2 ^ 11 by decide).trans (Nat.le_add_right _ _)))
    rw [Int.ofNat_eq_natCast, zpow_natCast]
    rcases le_or_gt k exponentLimit with hk | hk
    · rw [min_eq_left hk] at hread ⊢
      exact hread
    · rw [min_eq_right hk.le] at hread ⊢
      rcases Nat.eq_zero_or_pos digits with rfl | hdigits
      · exact hread.of_rounded_eq (by simp)
      · exact hread.of_large (le_mul_ten_pow hdigits le_rfl) (le_mul_ten_pow hdigits hk.le)
  | negSucc k =>
    show IsDoubleOf (Float.ofScientific digits true (min (k + 1) (exponentLimit + digits.log2))) _
    have hread := isDoubleOf_ofScientific digits (min (k + 1) (exponentLimit + digits.log2)) true
      ((min_le_right _ _).trans (Nat.add_le_add_right (by decide) _))
    rw [zpow_negSucc, ← div_eq_mul_inv]
    rcases le_or_gt (k + 1) (exponentLimit + digits.log2) with hk | hk
    · rw [min_eq_left hk] at hread ⊢
      exact hread
    · rw [min_eq_right hk.le] at hread ⊢
      refine hread.of_rounded_eq ?_
      rw [if_pos rfl, rounded_div_ten_pow le_rfl, rounded_div_ten_pow hk.le]

end Decimal
end UtmTiles
