import UtmTiles.Proofs.Binary64.Unpacked
import UtmTiles.Scalar.Binary64

/-!
# Values of doubles

`value` is the exact value of a finite double. Comparisons of finite doubles compare their values
(`le_iff`, `lt_iff`), and operations round the exact result, as long as it is not too large
(`isRounded_add` and so on).
-/

namespace UtmTiles
namespace Binary64

open Float.Model (UnpackedFloat)
open Float.Model.Format (binary64)
open Float.Model.UnpackedFloat (Sign packComponents unpackSign)

/-! ## Packing -/

/-- The mantissa with the bit that is not packed. -/
theorem toNat_append_one (m : BitVec 52) : (1#1 ++ m).toNat = 2 ^ 52 + m.toNat := by
  rw [BitVec.toNat_append, ← Nat.shiftLeft_add_eq_or_of_lt m.isLt]
  rfl

theorem unpack_pack_normal {s : Sign} {m : ℕ} {e : ℤ} (hm : 0 < m) (hlow : 2 ^ 52 ≤ m)
    (hhigh : m < 2 ^ 53) (hmin : -1074 ≤ e) (hmax : e ≤ 971) :
    (Float.Model.pack (.finite s m e hm)).unpack = .finite s m e hm := by
  have hlog : m.log2 = 52 := (Nat.log2_eq_iff hm.ne').2 ⟨hlow, hhigh⟩
  obtain ⟨k, hk⟩ : ∃ k : ℕ, k = (e + 1023 + 52).toNat := ⟨_, rfl⟩
  have hexponent : (BitVec.ofNat 11 k).toNat = k := Nat.mod_eq_of_lt (by omega)
  have hfinite : BitVec.ofNat 11 k ≠ -1#11 := fun h => by
    have := congrArg BitVec.toNat h
    rw [hexponent] at this
    change k = 2047 at this
    omega
  have hnormal : BitVec.ofNat 11 k ≠ 0#11 := fun h => by
    have := congrArg BitVec.toNat h
    rw [hexponent] at this
    change k = 0 at this
    omega
  have hmantissa : (1#1 ++ BitVec.ofNat 52 m).toNat = m := by
    rw [toNat_append_one]
    change 2 ^ 52 + m % 2 ^ 52 = m
    omega
  have hpack : UnpackedFloat.pack binary64 (.finite s m e hm) =
      packComponents binary64 s (BitVec.ofNat 11 k) (BitVec.ofNat 52 m) := by
    unfold UnpackedFloat.pack
    change (if 2 ^ 11 ≤ (e + 1023 + 52).toNat + 1 then _ else
      if m.log2 + 1 = 53 then packComponents binary64 s (BitVec.ofNat 11 (e + 1023 + 52).toNat) _
      else _) = _
    rw [← hk, if_neg (by omega), if_pos (by omega)]
  change UnpackedFloat.unpack binary64 (UnpackedFloat.pack binary64 _) = _
  rw [hpack]
  unfold UnpackedFloat.unpack
  simp only [UnpackedFloat.unpackMantissa_packComponents,
    UnpackedFloat.unpackExponent_packComponents, UnpackedFloat.unpackSign_packComponents,
    Sign.ofBitVec_toBitVec, hexponent, hmantissa, if_neg hfinite, if_neg hnormal]
  congr 1
  change (k : ℤ) - (1023 + 52) = e
  omega

theorem unpack_pack_subnormal {s : Sign} {m : ℕ} (hm : 0 < m) (hhigh : m < 2 ^ 52) :
    (Float.Model.pack (.finite s m (-1074) hm)).unpack = .finite s m (-1074) hm := by
  have hlog : m.log2 < 52 := (Nat.log2_lt hm.ne').2 hhigh
  have hmantissa : (BitVec.ofNat 52 m).toNat = m := Nat.mod_eq_of_lt hhigh
  have hnonzero : BitVec.ofNat 52 m ≠ 0#52 := fun h => by
    have := congrArg BitVec.toNat h
    rw [hmantissa] at this
    exact hm.ne' this
  have hpack : UnpackedFloat.pack binary64 (.finite s m (-1074) hm) =
      packComponents binary64 s 0#11 (BitVec.ofNat 52 m) := by
    unfold UnpackedFloat.pack
    refine (if_neg (by decide)).trans (if_neg ?_)
    change ¬m.log2 + 1 = 53
    omega
  change UnpackedFloat.unpack binary64 (UnpackedFloat.pack binary64 _) = _
  rw [hpack]
  unfold UnpackedFloat.unpack
  simp only [UnpackedFloat.unpackMantissa_packComponents,
    UnpackedFloat.unpackExponent_packComponents, UnpackedFloat.unpackSign_packComponents,
    Sign.ofBitVec_toBitVec, hmantissa, if_neg (by decide : 0#11 ≠ -1#11), if_true, dif_neg hnonzero]
  rfl

theorem abs_exactValue_finite (s : Sign) (m : ℕ) (e : ℤ) (hm : 0 < m) :
    |exactValue (.finite s m e hm)| = m * 2 ^ e := by
  have hnonneg : (0 : ℚ) ≤ m * 2 ^ e := by positivity
  cases s with
  | negative => rw [exactValue, signed, abs_neg, abs_of_nonneg hnonneg]
  | positive => exact abs_of_nonneg hnonneg

/-- A double that is not too large is packed without loss. -/
theorem unpack_pack {u : UnpackedFloat} (h : IsCanonical u) (hsmall : |exactValue u| < 2 ^ 1024) :
    (Float.Model.pack u).unpack = u := by
  cases u with
  | zero s => cases s <;> rfl
  | infinity => exact h.elim
  | notANumber => exact h.elim
  | finite s m e hm =>
    obtain ⟨hhigh, hmin, hlong⟩ := h
    by_cases hlow : 2 ^ 52 ≤ m
    · -- the exponent has a field of its own unless the value is too large
      refine unpack_pack_normal hm hlow hhigh hmin ?_
      by_contra hlarge
      rw [abs_exactValue_finite] at hsmall
      have hpower : (2 : ℚ) ^ 1024 ≤ m * 2 ^ e := by
        calc (2 : ℚ) ^ 1024 = 2 ^ (52 : ℤ) * 2 ^ (972 : ℤ) := by
              rw [← zpow_add₀ (by norm_num)]
              rfl
          _ ≤ m * 2 ^ e := by
            refine mul_le_mul (by exact_mod_cast hlow) ?_ (by positivity) (by positivity)
            exact zpow_le_zpow_right₀ (by norm_num) (by omega)
      exact hpower.not_gt hsmall
    · -- a short mantissa has the smallest exponent
      obtain rfl := hlong.resolve_left hlow
      exact unpack_pack_subnormal hm (not_le.1 hlow)

/-- The mantissas and exponents that can be packed give values of this size only. -/
theorem mul_zpow_lt {m : ℕ} {e : ℤ} (hm : m < 2 ^ 53) (he : e ≤ 971) :
    (m : ℚ) * 2 ^ e < 2 ^ 1024 := by
  calc (m : ℚ) * 2 ^ e < 2 ^ (53 : ℤ) * 2 ^ e :=
        mul_lt_mul_of_pos_right (by exact_mod_cast hm) (by positivity)
    _ ≤ 2 ^ (53 : ℤ) * 2 ^ (971 : ℤ) :=
        mul_le_mul_of_nonneg_left (zpow_le_zpow_right₀ (by norm_num) he) (by positivity)
    _ = 2 ^ 1024 := by
        rw [← zpow_add₀ (by norm_num)]
        rfl

/-- A double that is too large becomes an infinity of its sign. -/
theorem unpack_pack_finite_of_large {s : Sign} {m : ℕ} {e : ℤ} {hm : 0 < m}
    (h : IsCanonical (.finite s m e hm)) (hlarge : 2 ^ 1024 ≤ |exactValue (.finite s m e hm)|) :
    (Float.Model.pack (.finite s m e hm)).unpack = .infinity s := by
  rw [abs_exactValue_finite] at hlarge
  have he : 972 ≤ e := by
    by_contra hsmall
    exact hlarge.not_gt (mul_zpow_lt h.1 (by omega))
  have hpack : UnpackedFloat.pack binary64 (.finite s m e hm) =
      UnpackedFloat.packedInfinity binary64 s := by
    unfold UnpackedFloat.pack
    change (if 2 ^ 11 ≤ (e + 1023 + 52).toNat + 1 then _ else _) = _
    rw [if_pos (by omega)]
  change UnpackedFloat.unpack binary64 (UnpackedFloat.pack binary64 _) = _
  rw [hpack]
  cases s <;> rfl

theorem unpack_pack_of_large {u : UnpackedFloat} (h : IsCanonical u)
    (hlarge : 2 ^ 1024 ≤ |exactValue u|) :
    ∃ s r, (Float.Model.pack u).unpack = .infinity s ∧ exactValue u = signed s r ∧ 2 ^ 1024 ≤ r := by
  cases u with
  | zero => exact absurd hlarge (by norm_num [exactValue])
  | infinity => exact h.elim
  | notANumber => exact h.elim
  | finite s m e hm =>
    exact ⟨s, m * 2 ^ e, unpack_pack_finite_of_large h hlarge, rfl,
      (abs_exactValue_finite s m e hm) ▸ hlarge⟩

/-! ## The value of a double -/

/-- The exact value of a finite double, 0 for infinities and NaNs. -/
def value (x : Float) : ℚ := exactValue x.toModel.unpack

/-- What the bits of a double stand for. -/
theorem unpack_cases (b : BitVec 64) {s : Sign} {exponent : BitVec 11} {fraction : BitVec 52}
    (hs : s = Sign.ofBitVec (@unpackSign binary64 b))
    (hexponent : exponent = @UnpackedFloat.unpackExponent binary64 b)
    (hfraction : fraction = @UnpackedFloat.unpackMantissa binary64 b) :
    (exponent.toNat = 2047 ∧ (UnpackedFloat.unpack binary64 b = .infinity s ∨
      UnpackedFloat.unpack binary64 b = .notANumber)) ∨
    (exponent.toNat = 0 ∧ fraction.toNat = 0 ∧ UnpackedFloat.unpack binary64 b = .zero s) ∨
    (exponent.toNat = 0 ∧
      ∃ h, UnpackedFloat.unpack binary64 b = .finite s fraction.toNat (-1074) h) ∨
    (0 < exponent.toNat ∧ exponent.toNat < 2047 ∧ ∃ h, UnpackedFloat.unpack binary64 b =
      .finite s (2 ^ 52 + fraction.toNat) (exponent.toNat - 1075) h) := by
  have hlt := exponent.isLt
  -- the largest exponent stands for infinities and NaNs, the smallest one for zeros and short
  -- mantissas
  by_cases hmax : exponent = -1#11
  · refine Or.inl ⟨congrArg BitVec.toNat hmax, ?_⟩
    unfold UnpackedFloat.unpack
    rw [if_pos (hexponent ▸ hmax)]
    split
    · exact Or.inl (congrArg _ hs.symm)
    · exact Or.inr rfl
  · have hlarge : exponent.toNat ≠ 2047 := fun h => hmax (BitVec.eq_of_toNat_eq h)
    by_cases hzero : exponent = 0#11
    · refine Or.inr ?_
      rw [← or_assoc]
      refine Or.inl ?_
      have hexp := congrArg BitVec.toNat hzero
      unfold UnpackedFloat.unpack
      rw [if_neg (hexponent ▸ hmax), if_pos (hexponent ▸ hzero)]
      split
      · next hfrac =>
        exact Or.inl ⟨hexp, congrArg BitVec.toNat (hfraction.trans hfrac), congrArg _ hs.symm⟩
      · next hfrac =>
        subst hs hexponent hfraction
        have hunit : ((@UnpackedFloat.unpackExponent binary64 b).toNat : ℤ) -
            (binary64.exponentBias + 52) + 1 = -1074 := by
          rw [hexp]
          rfl
        have hpos : 0 < (@UnpackedFloat.unpackMantissa binary64 b).toNat :=
          Nat.pos_of_ne_zero fun h => hfrac (BitVec.eq_of_toNat_eq h)
        exact Or.inr ⟨hexp, hpos, congrArg (fun e => UnpackedFloat.finite _ _ e hpos) hunit⟩
    · have hpos : exponent.toNat ≠ 0 := fun h => hzero (BitVec.eq_of_toNat_eq h)
      refine Or.inr (Or.inr (Or.inr ⟨by omega, by omega, by omega, ?_⟩))
      subst hs hexponent hfraction
      unfold UnpackedFloat.unpack
      rw [if_neg hmax, if_neg hzero]
      have hunit : ((@UnpackedFloat.unpackExponent binary64 b).toNat : ℤ) -
          (binary64.exponentBias + 52) =
          (@UnpackedFloat.unpackExponent binary64 b).toNat - 1075 := rfl
      simp only [toNat_append_one]
      exact congrArg (fun e => UnpackedFloat.finite _ _ e _) hunit

theorem unpack_of_isFinite {x : Float} (h : x.isFinite = true) :
    (∃ s, x.toModel.unpack = .zero s) ∨ ∃ s m e hm, x.toModel.unpack = .finite s m e hm := by
  change x.toModel.unpack.isFinite = true at h
  cases hx : x.toModel.unpack with
  | zero s => exact Or.inl ⟨s, rfl⟩
  | finite s m e hm => exact Or.inr ⟨s, m, e, hm, rfl⟩
  | _ =>
    rw [hx] at h
    cases h

theorem unpack_of_isInf {x : Float} (h : x.isInf = true) : ∃ s, x.toModel.unpack = .infinity s := by
  change x.toModel.unpack.isInf = true at h
  cases hx : x.toModel.unpack with
  | infinity s => exact ⟨s, rfl⟩
  | _ =>
    rw [hx] at h
    cases h

theorem isFinite_of_value_pos {x : Float} (h : 0 < value x) : x.isFinite = true := by
  change x.toModel.unpack.isFinite = true
  rw [value] at h
  cases hx : x.toModel.unpack with
  | finite => rfl
  | _ =>
    rw [hx] at h
    exact absurd h (lt_irrefl 0)

/-- A finite double is canonical, and its value is not too large. -/
theorem isCanonical_of_isFinite {x : Float} (h : x.isFinite = true) :
    IsCanonical x.toModel.unpack ∧ |value x| < 2 ^ 1024 := by
  change x.toModel.unpack.isFinite = true at h
  change _ ∧ |exactValue x.toModel.unpack| < _
  have hlt := (@UnpackedFloat.unpackMantissa binary64 x.toModel.toBits.toBitVec).isLt
  change _ < 2 ^ 52 at hlt
  rcases unpack_cases x.toModel.toBits.toBitVec rfl rfl rfl with
    ⟨-, hinf | hnan⟩ | ⟨-, -, hzero⟩ | ⟨-, hpos, hsub⟩ | ⟨hmin, hmax, hpos, hnormal⟩
  · rw [show x.toModel.unpack = _ from hinf] at h
    cases h
  · rw [show x.toModel.unpack = _ from hnan] at h
    cases h
  · rw [show x.toModel.unpack = _ from hzero]
    exact ⟨trivial, by norm_num [exactValue]⟩
  · rw [show x.toModel.unpack = _ from hsub, abs_exactValue_finite]
    exact ⟨⟨hlt.trans (by decide), le_rfl, Or.inr rfl⟩,
      mul_zpow_lt (hlt.trans (by decide)) (by decide)⟩
  · rw [show x.toModel.unpack = _ from hnormal, abs_exactValue_finite]
    exact ⟨⟨by omega, by omega, Or.inl (Nat.le_add_right _ _)⟩,
      mul_zpow_lt (by omega) (by omega)⟩

theorem rounded_value {x : Float} (h : x.isFinite = true) : rounded (value x) = value x :=
  rounded_exactValue (isCanonical_of_isFinite h).1

/-! ## Operations -/

/-- The double is finite, and its value is a number, rounded. -/
structure IsRounded (x : Float) (q : ℚ) : Prop where
  isFinite : x.isFinite = true
  value : value x = rounded q

/-- A nearest unpacked double is packed to a double with the rounded value. -/
theorem isRounded_ofModel_pack {u : UnpackedFloat} {q : ℚ} (h : IsNearest u q)
    (hq : |rounded q| < 2 ^ 1024) : IsRounded (.ofModel (.pack u)) q := by
  have hunpack : (Float.Model.pack u).unpack = u :=
    unpack_pack h.isCanonical (by rw [h.value]; exact hq)
  refine ⟨?_, ?_⟩
  · change (Float.Model.pack u).unpack.isFinite = true
    rw [hunpack]
    have hcanonical := h.isCanonical
    cases u with
    | zero => rfl
    | finite => rfl
    | infinity => exact hcanonical.elim
    | notANumber => exact hcanonical.elim
  · change exactValue (Float.Model.pack u).unpack = rounded q
    rw [hunpack, h.value]

theorem lt_of_le_two_pow {q : ℚ} (h : q ≤ 2 ^ 53) : q < 2 ^ 1024 :=
  h.trans_lt (pow_lt_pow_right₀ (by norm_num) (by norm_num))

section Operations

variable {x y : Float}

theorem isRounded_add (hx : x.isFinite = true) (hy : y.isFinite = true)
    (h : |rounded (value x + value y)| < 2 ^ 1024) : IsRounded (x + y) (value x + value y) :=
  isRounded_ofModel_pack
    (isNearest_add (isCanonical_of_isFinite hx).1 (isCanonical_of_isFinite hy).1) h

theorem isRounded_sub (hx : x.isFinite = true) (hy : y.isFinite = true)
    (h : |rounded (value x - value y)| < 2 ^ 1024) : IsRounded (x - y) (value x - value y) :=
  isRounded_ofModel_pack
    (isNearest_sub (isCanonical_of_isFinite hx).1 (isCanonical_of_isFinite hy).1) h

theorem isRounded_mul (hx : x.isFinite = true) (hy : y.isFinite = true)
    (h : |rounded (value x * value y)| < 2 ^ 1024) : IsRounded (x * y) (value x * value y) :=
  isRounded_ofModel_pack
    (isNearest_mul (isCanonical_of_isFinite hx).1 (isCanonical_of_isFinite hy).1) h

theorem isRounded_div (hx : x.isFinite = true) (hy : y.isFinite = true) (hne : value y ≠ 0)
    (h : |rounded (value x / value y)| < 2 ^ 1024) : IsRounded (x / y) (value x / value y) :=
  isRounded_ofModel_pack
    (isNearest_div (isCanonical_of_isFinite hx).1 (isCanonical_of_isFinite hy).1 hne) h

end Operations

/-! ## Whole numbers -/

theorem value_of_isRounded {x : Float} {n : ℤ} (h : IsRounded x n) (hn : |n| < 2 ^ 53) :
    value x = n := by
  rw [h.value, rounded_intCast hn]

theorem abs_rounded_intCast_lt {n : ℤ} (hn : |n| < 2 ^ 53) : |rounded n| < 2 ^ 1024 := by
  rw [rounded_intCast hn]
  exact lt_of_le_two_pow (by exact_mod_cast hn.le)

/-- Numbers below 2 ^ 53 are doubles. -/
theorem isRounded_toFloat {n : ℕ} (h : n < 2 ^ 53) : IsRounded n.toUInt64.toFloat (n : ℤ) := by
  have habs : |(n : ℤ)| < 2 ^ 53 := by
    rw [Nat.abs_cast]
    exact_mod_cast h
  have hcount : n.toUInt64.toNat = n := Nat.mod_eq_of_lt (h.trans (by norm_num))
  have hnearest := isNearest_normalize n 0
  rw [zpow_zero, mul_one] at hnearest
  have hpack := isRounded_ofModel_pack hnearest (abs_rounded_intCast_lt habs)
  change IsRounded (.ofModel (.pack (UnpackedFloat.normalize binary64 (n.toUInt64.toNat : ℕ) 0
    .positive))) _
  rw [hcount]
  exact hpack

theorem isRounded_ofInt {n : ℕ} (h : n < 2 ^ 53) : IsRounded (Float.ofInt n) (n : ℤ) := by
  have habs : |(n : ℤ)| < 2 ^ 53 := by
    rw [Nat.abs_cast]
    exact_mod_cast h
  have hone : value (Float.ofBits 0x3FF0000000000000) = 1 := by
    change exactValue (.finite .positive (2 ^ 52) (-52) (by decide)) = 1
    norm_num [exactValue, signed]
  have hdigits := isRounded_toFloat h
  -- a decimal number is its digits, as a double, times a power of ten
  have hmul := isRounded_mul (y := Float.ofBits 0x3FF0000000000000) hdigits.isFinite rfl
  rw [hone, mul_one, value_of_isRounded hdigits habs] at hmul
  have hunfold : Float.ofInt n = n.toUInt64.toFloat * Float.ofBits 0x3FF0000000000000 :=
    dif_pos ⟨h, Nat.zero_le _⟩
  rw [hunfold]
  exact hmul (abs_rounded_intCast_lt habs)

/-! ## Order -/

/-- Of two canonical mantissas, that with the larger exponent is larger. -/
theorem mul_zpow_lt_mul_zpow {m n : ℕ} {e f : ℤ} (hm : m < 2 ^ 53) (hn : 2 ^ 52 ≤ n) (h : e < f) :
    (m : ℚ) * 2 ^ e < n * 2 ^ f := by
  calc (m : ℚ) * 2 ^ e < 2 ^ (53 : ℤ) * 2 ^ e :=
        mul_lt_mul_of_pos_right (by exact_mod_cast hm) (by positivity)
    _ = 2 ^ (52 : ℤ) * 2 ^ (e + 1) := by
        rw [← zpow_add₀ (by norm_num), ← zpow_add₀ (by norm_num)]
        congr 1
        ring
    _ ≤ n * 2 ^ f :=
        mul_le_mul (by exact_mod_cast hn) (zpow_le_zpow_right₀ (by norm_num) h) (by positivity)
          (by positivity)

theorem compare_mantissas {m n : ℕ} {e f : ℤ} (hm : m < 2 ^ 53) (hn : n < 2 ^ 53)
    (hlow : 2 ^ 52 ≤ m ∨ e = -1074) (hlow' : 2 ^ 52 ≤ n ∨ f = -1074) (he : -1074 ≤ e)
    (hf : -1074 ≤ f) :
    (compare e f).then (compare m n) = compare ((m : ℚ) * 2 ^ e) (n * 2 ^ f) := by
  rcases lt_trichotomy e f with h | rfl | h
  · have hlt := mul_zpow_lt_mul_zpow hm (hlow'.resolve_right (by omega)) h
    rw [compare_lt_iff_lt.2 h, compare_lt_iff_lt.2 hlt]
    rfl
  · have hpos : (0 : ℚ) < 2 ^ e := by positivity
    rw [compare_eq_iff_eq.2 rfl]
    change compare m n = _
    rcases lt_trichotomy m n with h | rfl | h
    · have hlt : (m : ℚ) * 2 ^ e < n * 2 ^ e :=
        mul_lt_mul_of_pos_right (by exact_mod_cast h) hpos
      rw [compare_lt_iff_lt.2 h, compare_lt_iff_lt.2 hlt]
    · rw [compare_eq_iff_eq.2 rfl, compare_eq_iff_eq.2 rfl]
    · have hlt : (n : ℚ) * 2 ^ e < m * 2 ^ e :=
        mul_lt_mul_of_pos_right (by exact_mod_cast h) hpos
      rw [compare_gt_iff_gt.2 h, compare_gt_iff_gt.2 hlt]
  · have hlt := mul_zpow_lt_mul_zpow hn (hlow.resolve_right (by omega)) h
    rw [compare_gt_iff_gt.2 h, compare_gt_iff_gt.2 hlt]
    rfl

theorem compare_neg (p q : ℚ) : compare (-p) (-q) = (compare p q).swap := by
  rcases lt_trichotomy p q with h | rfl | h
  · rw [compare_lt_iff_lt.2 h, compare_gt_iff_gt.2 (neg_lt_neg h)]
    rfl
  · rw [compare_eq_iff_eq.2 rfl, compare_eq_iff_eq.2 rfl]
    rfl
  · rw [compare_gt_iff_gt.2 h, compare_lt_iff_lt.2 (neg_lt_neg h)]
    rfl

/-- Canonical doubles compare as their values do. -/
theorem compare_eq {u w : UnpackedFloat} (hu : IsCanonical u) (hw : IsCanonical w) :
    u.compare w = some (compare (exactValue u) (exactValue w)) := by
  -- different signs decide; with equal ones mantissas and exponents do
  cases u with
  | infinity => exact hu.elim
  | notANumber => exact hu.elim
  | zero s =>
    cases w with
    | infinity => exact hw.elim
    | notANumber => exact hw.elim
    | zero t => exact congrArg some (compare_eq_iff_eq.2 rfl).symm
    | finite t n f hn =>
      have hpos : (0 : ℚ) < n * 2 ^ f := by positivity
      cases t with
      | negative => exact congrArg some (compare_gt_iff_gt.2 (neg_neg_of_pos hpos)).symm
      | positive => exact congrArg some (compare_lt_iff_lt.2 hpos).symm
  | finite s m e hm =>
    have hleft : (0 : ℚ) < m * 2 ^ e := by positivity
    cases w with
    | infinity => exact hw.elim
    | notANumber => exact hw.elim
    | zero t =>
      cases s with
      | negative => exact congrArg some (compare_lt_iff_lt.2 (neg_neg_of_pos hleft)).symm
      | positive => exact congrArg some (compare_gt_iff_gt.2 hleft).symm
    | finite t n f hn =>
      have hright : (0 : ℚ) < n * 2 ^ f := by positivity
      have hmantissas := compare_mantissas hu.1 hw.1 hu.2.2 hw.2.2 hu.2.1 hw.2.1
      cases s with
      | negative =>
        cases t with
        | negative =>
          exact congrArg some ((congrArg Ordering.swap hmantissas).trans (compare_neg _ _).symm)
        | positive =>
          exact congrArg some
            (compare_lt_iff_lt.2 ((neg_neg_of_pos hleft).trans hright)).symm
      | positive =>
        cases t with
        | negative =>
          exact congrArg some
            (compare_gt_iff_gt.2 ((neg_neg_of_pos hright).trans hleft)).symm
        | positive => exact congrArg some hmantissas

section Order

variable {x y : Float}

theorem le_def : x ≤ y ↔ (x.toModel.unpack.compare y.toModel.unpack).any (·.isLE) = true :=
  decide_eq_true_iff (p := x.toModel ≤ y.toModel)

theorem lt_def : x < y ↔ x.toModel.unpack.compare y.toModel.unpack = some .lt :=
  (decide_eq_true_iff (p := x.toModel < y.toModel)).trans beq_iff_eq

/-- Finite doubles are ordered as their values are. -/
theorem le_iff (hx : x.isFinite = true) (hy : y.isFinite = true) : x ≤ y ↔ value x ≤ value y := by
  rw [le_def, compare_eq (isCanonical_of_isFinite hx).1 (isCanonical_of_isFinite hy).1]
  change (compare (value x) (value y)).isLE = true ↔ _
  rcases lt_trichotomy (value x) (value y) with h | h | h
  · simp only [compare_lt_iff_lt.2 h, Ordering.isLE_lt, h.le]
  · simp only [compare_eq_iff_eq.2 h, Ordering.isLE_eq, h.le]
  · simp only [compare_gt_iff_gt.2 h, Ordering.isLE_gt, Bool.false_eq_true, h.not_ge]

theorem lt_iff (hx : x.isFinite = true) (hy : y.isFinite = true) : x < y ↔ value x < value y := by
  rw [lt_def, compare_eq (isCanonical_of_isFinite hx).1 (isCanonical_of_isFinite hy).1,
    Option.some_inj]
  exact compare_lt_iff_lt

theorem le_of_lt (h : x < y) : x ≤ y := by
  rw [le_def, lt_def.1 h]
  rfl

theorem not_le_of_lt (hx : x.isFinite = true) (hy : y.isFinite = true) (h : x < y) : ¬ y ≤ x := by
  rw [le_iff hy hx]
  exact ((lt_iff hx hy).1 h).not_ge

theorem not_lt_of_le (hx : x.isFinite = true) (hy : y.isFinite = true) (h : x ≤ y) : ¬ y < x := by
  rw [lt_iff hy hx]
  exact ((le_iff hx hy).1 h).not_gt

theorem not_lt_self (hx : x.isFinite = true) : ¬ x < x := by
  rw [lt_iff hx hx]
  exact lt_irrefl _

/-- A double between finite doubles is finite. -/
theorem isFinite_of_le_of_le {a b : Float} (ha : a.isFinite = true) (hb : b.isFinite = true)
    (hax : a ≤ x) (hxb : x ≤ b) : x.isFinite = true := by
  rw [le_def] at hax hxb
  have hleft := (isCanonical_of_isFinite ha).1
  have hright := (isCanonical_of_isFinite hb).1
  change x.toModel.unpack.isFinite = true
  generalize a.toModel.unpack = u at hleft hax
  generalize b.toModel.unpack = w at hright hxb
  cases hx : x.toModel.unpack with
  | zero => rfl
  | finite => rfl
  | infinity s =>
    rw [hx] at hax hxb
    cases s with
    | negative => cases u <;> first | exact hleft.elim | exact absurd hax Bool.false_ne_true
    | positive => cases w <;> first | exact hright.elim | exact absurd hxb Bool.false_ne_true
  | notANumber =>
    rw [hx] at hax
    cases u <;> first | exact hleft.elim | exact absurd hax Bool.false_ne_true

section Bounds

variable {a b low high : Float}

/-- Finite bounds of a double are bounds of its value. -/
theorem between_iff (ha : a.isFinite = true) (hb : b.isFinite = true) :
    a ≤ x ∧ x ≤ b ↔ x.isFinite = true ∧ value a ≤ value x ∧ value x ≤ value b := by
  constructor
  · rintro ⟨hax, hxb⟩
    have hx := isFinite_of_le_of_le ha hb hax hxb
    exact ⟨hx, (le_iff ha hx).1 hax, (le_iff hx hb).1 hxb⟩
  · rintro ⟨hx, hax, hxb⟩
    exact ⟨(le_iff ha hx).2 hax, (le_iff hx hb).2 hxb⟩

theorem between_of_lt_of_lt (ha : a.isFinite = true) (hb : b.isFinite = true)
    (hlow : a ≤ low ∧ low ≤ b) (hhigh : a ≤ high ∧ high ≤ b) (h : low < x) (h' : x < high) :
    a ≤ x ∧ x ≤ b := by
  obtain ⟨hlow, hlow_ge, -⟩ := (between_iff ha hb).1 hlow
  obtain ⟨hhigh, -, hhigh_le⟩ := (between_iff ha hb).1 hhigh
  have hx := isFinite_of_le_of_le hlow hhigh (le_of_lt h) (le_of_lt h')
  rw [between_iff ha hb]
  exact ⟨hx, hlow_ge.trans ((lt_iff hlow hx).1 h).le, ((lt_iff hx hhigh).1 h').le.trans hhigh_le⟩

end Bounds

theorem mul_zpow_le_of_lt {m n : ℕ} {e j : ℤ} (hm : m < 2 ^ 53) (hn : 2 ^ 52 ≤ n)
    (h : (m : ℚ) * 2 ^ e < (n + 1) * 2 ^ j) : (m : ℚ) * 2 ^ e ≤ n * 2 ^ j := by
  rcases lt_or_ge e j with he | he
  · exact (mul_zpow_lt_mul_zpow hm hn he).le
  · -- in units of `2 ^ j` both sides are whole numbers
    obtain ⟨i, rfl⟩ : ∃ i : ℕ, e = i + j := ⟨(e - j).toNat, by omega⟩
    have hunit : (0 : ℚ) < 2 ^ j := by positivity
    have hwhole : (m : ℚ) * 2 ^ ((i : ℤ) + j) = (m * 2 ^ i : ℕ) * 2 ^ j := by
      rw [zpow_add₀ (by norm_num), zpow_natCast, ← mul_assoc]
      push_cast
      rfl
    rw [hwhole] at h ⊢
    have hlt : m * 2 ^ i < n + 1 := by
      exact_mod_cast lt_of_mul_lt_mul_right h hunit.le
    refine mul_le_mul_of_nonneg_right ?_ hunit.le
    exact_mod_cast Nat.lt_succ_iff.1 hlt

/-- A double below a double with a long mantissa is not above the one before it. -/
theorem value_le_of_lt (hx : x.isFinite = true) {n : ℕ} {j : ℤ} (hn : 2 ^ 52 ≤ n)
    (h : value x < (n + 1) * 2 ^ j) : value x ≤ n * 2 ^ j := by
  have hcanonical := (isCanonical_of_isFinite hx).1
  have hnonneg : (0 : ℚ) ≤ n * 2 ^ j := by positivity
  unfold value at h ⊢
  cases hunpack : x.toModel.unpack with
  | infinity => exact hnonneg
  | notANumber => exact hnonneg
  | zero => exact hnonneg
  | finite s m e hm =>
    rw [hunpack] at h hcanonical
    cases s with
    | negative =>
      have hpos : (0 : ℚ) < m * 2 ^ e := by positivity
      exact (neg_neg_of_pos hpos).le.trans hnonneg
    | positive => exact mul_zpow_le_of_lt hcanonical.1 hn h

end Order

end Binary64
end UtmTiles
