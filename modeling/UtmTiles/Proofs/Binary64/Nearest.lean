import UtmTiles.Proofs.Binary64.Index

/-!
# The double nearest to a number

`rounded` is the value of the double nearest to a number (`rounded_dist_le`). A number that is too
large has no such double and becomes an infinity; `IsDoubleOf` says both at once.

Numbers that are near enough to a double are rounded to it (`rounded_of_near`), and a double is known
by its value, zeros apart (`eq_of_value_eq`).
-/

namespace UtmTiles
namespace Binary64

open Float.Model (UnpackedFloat)

/-! ## The nearest whole number -/

theorem abs_sub_nearestEven_le (q : ℚ) : |q - nearestEven q| ≤ 1 / 2 := by
  have hlow := Int.floor_le q
  have hhigh := Int.lt_floor_add_one q
  unfold nearestEven
  split_ifs with hbelow habove
  · rw [abs_le]
    constructor <;> linarith
  · rw [abs_le]
    push_cast
    constructor <;> linarith
  · -- a half is as far from either neighbour
    have hhalf : 2 * (q - ⌊q⌋) = 1 := le_antisymm (not_lt.1 habove) (not_lt.1 hbelow)
    rw [abs_le]
    rcases Int.emod_two_eq_zero_or_one ⌊q⌋ with heven | hodd
    · rw [heven]
      push_cast
      constructor <;> linarith
    · rw [hodd]
      push_cast
      constructor <;> linarith

/-- No whole number is nearer than the one that is rounded to. -/
theorem abs_sub_nearestEven_le_abs_sub (q : ℚ) (n : ℤ) : |q - nearestEven q| ≤ |q - n| := by
  have hhalf := abs_sub_nearestEven_le q
  by_cases hn : n = nearestEven q
  · rw [hn]
  · -- two whole numbers are at least one apart
    have hone : (1 : ℚ) ≤ |(nearestEven q : ℚ) - n| := by
      exact_mod_cast Int.one_le_abs (sub_ne_zero.2 (Ne.symm hn))
    have htriangle := abs_sub_le (nearestEven q : ℚ) q n
    rw [abs_sub_comm (nearestEven q : ℚ) q] at htriangle
    linarith

theorem nearestEven_of_near {q : ℚ} {n : ℤ} (h : |q - n| ≤ 1 / 2)
    (htie : |q - n| = 1 / 2 → n % 2 = 0) : nearestEven q = n := by
  obtain ⟨hlow, hhigh⟩ := abs_le.1 h
  unfold nearestEven
  rcases lt_trichotomy q n with hlt | rfl | hgt
  · -- from below, the floor is the neighbour
    have hfloor : ⌊q⌋ = n - 1 := by
      rw [Int.floor_eq_iff]
      push_cast
      constructor <;> linarith
    rw [hfloor]
    push_cast
    by_cases hhalf : q - n = -(1 / 2)
    · have heven := htie (by rw [hhalf]; norm_num)
      rw [if_neg (by linarith), if_neg (by linarith)]
      omega
    · have hne : -(1 / 2) < q - n := lt_of_le_of_ne hlow (Ne.symm hhalf)
      rw [if_neg (by linarith), if_pos (by linarith)]
      omega
  · rw [Int.floor_intCast, sub_self, mul_zero, if_pos one_pos]
  · have hfloor : ⌊q⌋ = n := by
      rw [Int.floor_eq_iff]
      constructor <;> linarith
    rw [hfloor]
    by_cases hhalf : q - n = 1 / 2
    · have heven := htie (by rw [hhalf]; norm_num)
      rw [if_neg (by linarith), if_neg (by linarith)]
      omega
    · rw [if_pos (by linarith [lt_of_le_of_ne hhigh hhalf])]

/-! ## The nearest double -/

theorem rounded_dist_le_of_pos {q : ℚ} (hq : 0 < q) {m : ℤ} {e : ℤ} (hm : |m| < 2 ^ 53)
    (he : -1074 ≤ e) : |q - rounded q| ≤ |q - m * 2 ^ e| := by
  obtain ⟨u, hu⟩ : ∃ u, u = unitExponent q := ⟨_, rfl⟩
  have hunit : (0 : ℚ) < 2 ^ u := by positivity
  -- distances are measured in units of the last bit
  have hscale : ∀ n : ℤ, |q - n * 2 ^ u| = |q / 2 ^ u - n| * 2 ^ u := by
    intro n
    rw [← abs_of_pos hunit, ← abs_mul, abs_of_pos hunit, sub_mul, div_mul_cancel₀ _ hunit.ne']
  have hnearest : ∀ n : ℤ, |q - rounded q| ≤ |q - n * 2 ^ u| := by
    intro n
    rw [rounded_of_pos hq, roundedPos, units, ← hu, hscale, hscale]
    exact mul_le_mul_of_nonneg_right (abs_sub_nearestEven_le_abs_sub _ n) hunit.le
  rcases le_or_gt u e with hcoarse | hfine
  · obtain ⟨k, hk⟩ := Int.le.dest hcoarse
    have hmultiple : (m : ℚ) * 2 ^ e = (m * 2 ^ k : ℤ) * 2 ^ u := by
      rw [← hk, zpow_add₀ (by norm_num), zpow_natCast]
      push_cast
      ring
    rw [hmultiple]
    exact hnearest _
  · -- a double with a smaller unit is smaller than the power of two below the number
    have hpower : (2 : ℚ) ^ (52 + u) ≤ q := hu ▸ le_of_unitExponent hq (by omega)
    have hsmall : (m : ℚ) * 2 ^ e ≤ 2 ^ (52 + u) := by
      calc (m : ℚ) * 2 ^ e ≤ (2 ^ 53 : ℤ) * 2 ^ e :=
            mul_le_mul_of_nonneg_right (by exact_mod_cast ((le_abs_self m).trans hm.le)) (by positivity)
        _ = 2 ^ (53 + e) := by
            rw [zpow_add₀ (by norm_num)]
            norm_num
        _ ≤ 2 ^ (52 + u) := zpow_le_zpow_right₀ (by norm_num) (by omega)
    have hwhole : (2 : ℚ) ^ (52 + u) = (2 ^ 52 : ℤ) * 2 ^ u := by
      rw [zpow_add₀ (by norm_num)]
      norm_num
    have hthere := hnearest (2 ^ 52)
    rw [← hwhole, abs_of_nonneg (sub_nonneg.2 hpower)] at hthere
    refine hthere.trans (le_trans ?_ (le_abs_self _))
    linarith

/-- No double is nearer to a number than the one that the number is rounded to. -/
theorem rounded_dist_le (q : ℚ) {m : ℤ} {e : ℤ} (hm : |m| < 2 ^ 53) (he : -1074 ≤ e) :
    |q - rounded q| ≤ |q - m * 2 ^ e| := by
  rcases lt_trichotomy q 0 with hneg | rfl | hpos
  · have hmirror := rounded_dist_le_of_pos (neg_pos.2 hneg) (m := -m) (by rwa [abs_neg]) he
    rw [rounded_neg] at hmirror
    push_cast at hmirror
    rw [← abs_neg (q - rounded q), ← abs_neg (q - m * 2 ^ e)]
    convert hmirror using 2 <;> ring
  · rw [rounded_zero, sub_zero, abs_zero]
    exact abs_nonneg _
  · exact rounded_dist_le_of_pos hpos hm he

/-! ## Numbers near a double -/

theorem rounded_eq_of_unitExponent {q : ℚ} (hq : 0 < q) {n e : ℤ} (he : unitExponent q = e)
    (hn : nearestEven (q / 2 ^ e) = n) : rounded q = n * 2 ^ e := by
  rw [rounded_of_pos hq, roundedPos, units, he, hn]

theorem unitExponent_eq {q : ℚ} (hq : 0 < q) {e : ℤ} (he : -1074 ≤ e) (hhigh : q < 2 ^ (53 + e))
    (hlow : 2 ^ (52 + e) ≤ q ∨ e = -1074) : unitExponent q = e := by
  refine le_antisymm (unitExponent_le hq he hhigh) ?_
  rcases hlow with hlow | rfl
  · have hlog := (Int.zpow_le_iff_le_log (by norm_num : 1 < 2) hq).1 hlow
    unfold unitExponent
    omega
  · exact le_max_right _ _

/-- A number within half a unit of a double is rounded to it; at half a unit, if its last bit is 0. -/
theorem rounded_of_near {q : ℚ} (hq : 0 < q) {m e : ℤ} (he : -1074 ≤ e) (hhigh : q < 2 ^ (53 + e))
    (hlow : 2 ^ (52 + e) ≤ q ∨ e = -1074) (hnear : |q - m * 2 ^ e| ≤ 2 ^ e / 2)
    (htie : |q - m * 2 ^ e| = 2 ^ e / 2 → m % 2 = 0) : rounded q = m * 2 ^ e := by
  have hunit : (0 : ℚ) < 2 ^ e := by positivity
  have hscale : |q / 2 ^ e - m| = |q - m * 2 ^ e| / 2 ^ e := by
    rw [← abs_of_pos hunit, ← abs_div, abs_of_pos hunit, sub_div, mul_div_cancel_right₀ _ hunit.ne']
  refine rounded_eq_of_unitExponent hq (unitExponent_eq hq he hhigh hlow) (nearestEven_of_near ?_ ?_)
  · rw [hscale, div_le_iff₀ hunit]
    linarith
  · rw [hscale, div_eq_iff hunit.ne']
    exact fun h => htie (by linarith)

/-- Below a power of two the last bit is worth half as much. -/
theorem rounded_of_near_below_power {q : ℚ} {e : ℤ} (he : -1074 < e)
    (hlow : (2 ^ 52 - 1 / 4) * 2 ^ e ≤ q) (hhigh : q < 2 ^ 52 * 2 ^ e) :
    rounded q = 2 ^ 52 * 2 ^ e := by
  have hunit : (0 : ℚ) < 2 ^ e := by positivity
  have hhalf : (2 : ℚ) ^ (e - 1) = 2 ^ e / 2 := zpow_sub_one₀ (by norm_num) e
  have hvalue : (2 : ℚ) ^ 52 * 2 ^ e = (2 ^ 53 : ℤ) * 2 ^ (e - 1) := by
    rw [hhalf]
    push_cast
    ring
  rw [hvalue]
  refine rounded_of_near (by nlinarith) (by omega) ?_ (Or.inl ?_) ?_ fun _ => by norm_num
  · rw [zpow_add₀ (by norm_num), hhalf]
    norm_num at hhigh ⊢
    linarith
  · rw [zpow_add₀ (by norm_num), hhalf]
    norm_num at hlow ⊢
    nlinarith
  · rw [← hvalue, hhalf, abs_le]
    constructor <;> nlinarith

/-! ## Parts -/

/-- A power, as a quotient of powers with natural exponents. -/
theorem zpow_mul_pow_toNat {b : ℚ} (hb : b ≠ 0) (n : ℤ) : b ^ n * b ^ (-n).toNat = b ^ n.toNat := by
  rw [← zpow_natCast, ← zpow_natCast, ← zpow_add₀ hb]
  congr 1
  omega

/-- A mantissa is as long as its exponent permits, and the exponent fits into its field. -/
structure Parts.IsCanonical (p : Parts) : Prop where
  mantissa_lt : p.mantissa < 2 ^ 53
  le_exponent : -1074 ≤ p.exponent
  exponent_le : p.exponent ≤ 971
  long : 2 ^ 52 ≤ p.mantissa ∨ p.exponent = -1074

theorem isCanonical_of_parts {x : Float} {p : Parts} (h : parts? x = some p) : p.IsCanonical := by
  have hfraction := Nat.mod_lt x.toBits.toNat (show 0 < 2 ^ 52 by decide)
  have hexponent := Nat.mod_lt (x.toBits.toNat / 2 ^ 52) (show 0 < 2 ^ 11 by decide)
  obtain ⟨negative, m, e⟩ := p
  rw [parts?_eq_ite] at h
  split_ifs at h with hmax hmin <;>
    simp only [Option.some.injEq, Parts.mk.injEq] at h <;>
    constructor <;> simp only <;> omega

/-- The highest bit is the sign. -/
theorem sign_toNat (b : UInt64) : (b >>> 63 == 1) = decide (b.toNat / 2 ^ 63 = 1) := by
  have hshift : (b >>> 63).toNat = b.toNat / 2 ^ 63 := by
    rw [UInt64.toNat_shiftRight, Nat.shiftRight_eq_div_pow]
    rfl
  rw [Bool.eq_iff_iff, beq_iff_eq, ← UInt64.toNat_inj, hshift, decide_eq_true_iff]
  rfl

/-- A finite double is known by its parts. -/
theorem eq_of_parts_eq {x y : Float} {p : Parts} (hx : parts? x = some p) (hy : parts? y = some p) :
    x = y := by
  have hbits : x.toBits = y.toBits := by
    have hxlt := x.toBits.toNat_lt
    have hylt := y.toBits.toNat_lt
    rw [parts?_eq_ite, sign_toNat] at hx hy
    rw [← UInt64.toNat_inj]
    -- sign, exponent and fraction make up the bits
    split_ifs at hx hy <;>
      · have hparts := (Option.some.inj hx).trans (Option.some.inj hy).symm
        simp only [Parts.mk.injEq, decide_eq_decide] at hparts
        omega
  obtain ⟨⟨_, _⟩⟩ := x
  obtain ⟨⟨_, _⟩⟩ := y
  change _ = _ at hbits
  subst hbits
  rfl

theorem Parts.value_pos {p : Parts} (h : 0 < p.value) :
    p.negative = false ∧ 0 < p.mantissa ∧ p.value = p.mantissa * 2 ^ p.exponent := by
  obtain ⟨negative, m, e⟩ := p
  have hunit : (0 : ℚ) < 2 ^ e := by positivity
  cases negative with
  | true =>
    have hnonpos : Parts.value ⟨true, m, e⟩ ≤ 0 := by
      simp only [Parts.value, Parts.signed, if_true, Int.cast_neg, Int.cast_natCast, neg_mul,
        neg_nonpos]
      positivity
    exact absurd h hnonpos.not_gt
  | false =>
    have hvalue : Parts.value ⟨false, m, e⟩ = m * 2 ^ e := rfl
    rw [hvalue] at h ⊢
    refine ⟨rfl, ?_, rfl⟩
    exact_mod_cast pos_of_mul_pos_left h hunit.le

/-- Canonical mantissas and exponents are known by the number they make up. -/
theorem eq_of_mul_zpow_eq {m n : ℕ} {e f : ℤ} (hm : m < 2 ^ 53) (hn : n < 2 ^ 53)
    (hlong : 2 ^ 52 ≤ m ∨ e = -1074) (hlong' : 2 ^ 52 ≤ n ∨ f = -1074) (he : -1074 ≤ e)
    (hf : -1074 ≤ f) (h : (m : ℚ) * 2 ^ e = n * 2 ^ f) : m = n ∧ e = f := by
  have hexponent : e = f := by
    rcases lt_trichotomy e f with hlt | heq | hgt
    · exact absurd h (mul_zpow_lt_mul_zpow hm (hlong'.resolve_right (by omega)) hlt).ne
    · exact heq
    · exact absurd h.symm (mul_zpow_lt_mul_zpow hn (hlong.resolve_right (by omega)) hgt).ne
  subst hexponent
  have hunit : (2 : ℚ) ^ e ≠ 0 := by positivity
  exact ⟨by exact_mod_cast mul_right_cancel₀ hunit h, rfl⟩

/-- The parts of a positive double. -/
theorem exists_parts_of_pos {x : Float} (hx : x.isFinite = true) (hpos : 0 < value x) :
    ∃ p, parts? x = some p ∧ p.IsCanonical ∧ p.negative = false ∧ 0 < p.mantissa ∧
      value x = p.mantissa * 2 ^ p.exponent := by
  obtain ⟨p, hp, hvalue⟩ := parts?_eq hx
  obtain ⟨hsign, hmantissa, hproduct⟩ := Parts.value_pos (hvalue ▸ hpos)
  exact ⟨p, hp, isCanonical_of_parts hp, hsign, hmantissa, hvalue ▸ hproduct⟩

/-- A positive double is known by its value. -/
theorem eq_of_value_eq {x y : Float} (hx : x.isFinite = true) (hy : y.isFinite = true)
    (hpos : 0 < value x) (h : value x = value y) : x = y := by
  obtain ⟨p, hp, hp_canonical, hp_sign, -, hp_value⟩ := exists_parts_of_pos hx hpos
  obtain ⟨r, hr, hr_canonical, hr_sign, -, hr_value⟩ := exists_parts_of_pos hy (h ▸ hpos)
  rw [hp_value, hr_value] at h
  obtain ⟨hmantissa, hexponent⟩ := eq_of_mul_zpow_eq hp_canonical.mantissa_lt
    hr_canonical.mantissa_lt hp_canonical.long hr_canonical.long hp_canonical.le_exponent
    hr_canonical.le_exponent h
  obtain ⟨negative, m, e⟩ := p
  obtain ⟨negative', n, f⟩ := r
  simp only at hmantissa hexponent hp_sign hr_sign
  subst hmantissa hexponent hp_sign hr_sign
  exact eq_of_parts_eq hp hr

/-! ## What a number becomes -/

/-- The double nearest to a number, or an infinity if the number is too large. -/
structure IsDoubleOf (x : Float) (q : ℚ) : Prop where
  isRounded : |rounded q| < 2 ^ 1024 → IsRounded x q
  isInf : 2 ^ 1024 ≤ |rounded q| → x.isInf = true

theorem isDoubleOf_pack {u : UnpackedFloat} {q : ℚ} (h : IsNearest u q) :
    IsDoubleOf (.ofModel (.pack u)) q := by
  refine ⟨isRounded_ofModel_pack h, fun hlarge => ?_⟩
  obtain ⟨s, -, hs, -⟩ := unpack_pack_of_large h.isCanonical (by rw [h.value]; exact hlarge)
  change (Float.Model.pack u).unpack.isInf = true
  rw [hs]
  rfl

theorem not_isFinite_of_isInf {x : Float} (h : x.isInf = true) : x.isFinite = false := by
  obtain ⟨s, hs⟩ := unpack_of_isInf h
  change x.toModel.unpack.isFinite = false
  rw [hs]
  rfl

theorem IsDoubleOf.isFinite_iff {x : Float} {q : ℚ} (h : IsDoubleOf x q) :
    x.isFinite = true ↔ |rounded q| < 2 ^ 1024 := by
  constructor
  · intro hx
    by_contra hlarge
    have hinf := not_isFinite_of_isInf (h.isInf (not_lt.1 hlarge))
    rw [hx] at hinf
    cases hinf
  · exact fun hsmall => (h.isRounded hsmall).isFinite

/-- A number has a positive double exactly if the one that it becomes is finite and positive. -/
theorem IsDoubleOf.isRounded_iff {x y : Float} {q : ℚ} (h : IsDoubleOf x q) :
    IsRounded y q ∧ 0 < value y ↔ (x.isFinite = true ∧ 0.0 < x) ∧ y = x := by
  constructor
  · rintro ⟨hy, hpos⟩
    have hsmall : |rounded q| < 2 ^ 1024 := by
      rw [← hy.value]
      exact (isCanonical_of_isFinite hy.isFinite).2
    have hx := h.isRounded hsmall
    have heq : y = x := eq_of_value_eq hy.isFinite hx.isFinite hpos (hy.value.trans hx.value.symm)
    refine ⟨⟨hx.isFinite, ?_⟩, heq⟩
    rw [lt_iff rfl hx.isFinite, ← heq]
    exact hpos
  · rintro ⟨⟨hx, hpos⟩, rfl⟩
    exact ⟨h.isRounded (h.isFinite_iff.1 hx), (lt_iff rfl hx).1 hpos⟩

/-- What matters about a number is what it is rounded to. -/
theorem IsDoubleOf.of_rounded_eq {x : Float} {p q : ℚ} (h : IsDoubleOf x p)
    (heq : rounded p = rounded q) : IsDoubleOf x q := by
  refine ⟨fun hq => ?_, fun hq => h.isInf (heq ▸ hq)⟩
  have hx := h.isRounded (heq ▸ hq)
  exact ⟨hx.isFinite, hx.value.trans heq⟩

end Binary64
end UtmTiles
