import Mathlib
import UtmTiles.Proofs.Binary64.Rounding

/-!
# Unpacked doubles

An unpacked double is a sign, a mantissa and an exponent. Operations compute a mantissa that is
exact but for two bits, which say on which side of the half the rest lies (`Stands`), and round it.
So the exact value of a result is `rounded` of the exact result (`isNearest_add` and so on).

Results are again in the form in which doubles are packed (`IsCanonical`), except that their
exponent may be too large.
-/

namespace UtmTiles
namespace Binary64

open Float.Model (UnpackedFloat totalExponent)
open Float.Model.Format (binary64)
open Float.Model.UnpackedFloat (Sign Accuracy ExtendedMantissa)

/-! ## Values -/

/-- A number with a sign put before it. -/
def signed (s : Sign) (q : ℚ) : ℚ :=
  match s with
  | .negative => -q
  | .positive => q

/-- The exact value of an unpacked double, 0 if it is not finite. -/
def exactValue : UnpackedFloat → ℚ
  | .finite s m e _ => signed s (m * 2 ^ e)
  | _ => 0

/-- The unpacked double is finite, and its mantissa is as long as its exponent permits. -/
def IsCanonical : UnpackedFloat → Prop
  | .zero _ => True
  | .finite _ m e _ => m < 2 ^ 53 ∧ -1074 ≤ e ∧ (2 ^ 52 ≤ m ∨ e = -1074)
  | _ => False

theorem rounded_signed (s : Sign) {q : ℚ} (hq : 0 < q) :
    rounded (signed s q) = signed s (roundedPos q) := by
  cases s with
  | negative => rw [signed, rounded_neg, rounded_of_pos hq, signed]
  | positive => exact rounded_of_pos hq

theorem apply_eq_signed (s : Sign) (m : ℕ) : ((s.apply m : ℤ) : ℚ) = signed s m := by
  cases s <;> simp [Sign.apply, signed]

theorem signed_mul (s : Sign) (p q : ℚ) : signed s p * q = signed s (p * q) := by
  cases s <;> simp [signed]

/-- Rounding keeps the values of canonical doubles. -/
theorem rounded_exactValue {u : UnpackedFloat} (h : IsCanonical u) :
    rounded (exactValue u) = exactValue u := by
  cases u with
  | zero => exact rounded_zero
  | finite s m e hm =>
    obtain ⟨hlt, hmin, -⟩ := h
    refine rounded_of_eq (m := s.apply m) (e := e) ?_ hmin ?_
    · cases s <;> simp only [Sign.apply, abs_neg, Nat.abs_cast] <;> omega
    · rw [exactValue, apply_eq_signed, signed_mul]
  | infinity => exact h.elim
  | notANumber => exact h.elim

/-! ## Mantissas with two more bits -/

/-- The number that a mantissa stands for, as far as its two residual bits tell. -/
def Stands (em : ExtendedMantissa) (q : ℚ) : Prop :=
  match em.roundBit, em.stickyBit with
  | false, false => q = em.mantissa
  | false, true => em.mantissa < q ∧ q < em.mantissa + 1 / 2
  | true, false => q = em.mantissa + 1 / 2
  | true, true => em.mantissa + 1 / 2 < q ∧ q < em.mantissa + 1

namespace Stands

variable {em : ExtendedMantissa} {q : ℚ}

theorem exact (m : ℕ) : Stands (.ofMantissaAndAccuracy m .exact) m := rfl

theorem floor (h : Stands em q) : ⌊q⌋ = (em.mantissa : ℤ) := by
  obtain ⟨m, r, t⟩ := em
  rw [Int.floor_eq_iff]
  cases r <;> cases t <;> simp only [Stands, Int.cast_natCast] at h ⊢
  · exact ⟨h.ge, by linarith⟩
  · exact ⟨h.1.le, by linarith⟩
  · constructor <;> linarith
  · constructor <;> linarith

theorem roundedMantissa (h : Stands em q) : (em.roundedMantissa : ℤ) = nearestEven q := by
  have hfloor := h.floor
  obtain ⟨m, r, t⟩ := em
  unfold nearestEven
  rw [hfloor]
  cases r <;> cases t <;> simp only [Stands, Int.cast_natCast] at h ⊢ <;>
    simp only [ExtendedMantissa.roundedMantissa, ExtendedMantissa.accuracy,
      Accuracy.roundToNearestEven]
  · rw [if_pos (by linarith)]
  · rw [if_pos (by linarith)]
  · rw [if_neg (by linarith), if_neg (by linarith)]
    push_cast
    rfl
  · rw [if_neg (by linarith), if_pos (by linarith)]
    push_cast
    rfl

/-- Taking a bit away halves the number. -/
theorem shiftRightOne (h : Stands em q) : Stands em.shiftRightOne (q / 2) := by
  obtain ⟨m, r, t⟩ := em
  have hsum : ((m % 2 : ℕ) : ℚ) + 2 * ((m / 2 : ℕ) : ℚ) = m := by
    exact_mod_cast Nat.mod_add_div m 2
  have hone : (1 != 0) = true := rfl
  rcases Nat.mod_two_eq_zero_or_one m with hbit | hbit <;>
    cases r <;> cases t <;>
    simp only [Stands, ExtendedMantissa.shiftRightOne, hbit, hone, Bool.or_false, Bool.or_true,
      bne_self_eq_false, Nat.cast_zero, Nat.cast_one] at h hsum ⊢ <;>
    first
    | linarith
    | exact ⟨by linarith, by linarith⟩

theorem shiftRight (h : Stands em q) (k : ℕ) : Stands (em >>> k) (q / 2 ^ k) := by
  change Stands (k.repeat ExtendedMantissa.shiftRightOne em) (q / 2 ^ k)
  induction k with
  | zero => simpa [Nat.repeat] using h
  | succ k ih =>
    rw [pow_succ, ← div_div]
    exact ih.shiftRightOne

end Stands

/-! ## Rounding a mantissa -/

theorem log_mul_zpow {m : ℕ} {q : ℚ} (hm : 0 < m) (hfloor : ⌊q⌋ = (m : ℤ)) (e : ℤ) :
    Int.log 2 (q * 2 ^ e) = m.log2 + e := by
  rw [Int.floor_eq_iff] at hfloor
  have hq : 0 < q * 2 ^ e :=
    mul_pos ((by exact_mod_cast hm : (0 : ℚ) < (m : ℤ)).trans_le hfloor.1) (by positivity)
  have hlow : (2 : ℚ) ^ (m.log2 : ℤ) ≤ q := by
    refine le_trans ?_ hfloor.1
    exact_mod_cast Nat.log2_self_le hm.ne'
  have hhigh : q < (2 : ℚ) ^ (m.log2 + 1 : ℤ) := by
    refine hfloor.2.trans_le ?_
    exact_mod_cast Nat.lt_log2_self
  refine le_antisymm (Int.lt_add_one_iff.1 ?_) ?_
  · refine (Int.lt_zpow_iff_log_lt (by norm_num : 1 < 2) hq).1 ?_
    rw [Nat.cast_ofNat, add_right_comm, zpow_add₀ (by norm_num)]
    exact mul_lt_mul_of_pos_right hhigh (by positivity)
  · refine (Int.zpow_le_iff_le_log (by norm_num : 1 < 2) hq).1 ?_
    rw [Nat.cast_ofNat, zpow_add₀ (by norm_num)]
    exact mul_le_mul_of_nonneg_right hlow (by positivity)

/-- A mantissa is brought to the exponent of the last bit of the number it stands for. -/
theorem targetExponent_eq {m : ℕ} {e : ℤ} {q : ℚ} (hq : 0 < q) (hfloor : ⌊q⌋ = (m : ℤ))
    (hlong : 0 < m ∨ e ≤ -1074) :
    binary64.targetExponent (totalExponent m e) = unitExponent (q * 2 ^ e) := by
  have hformat : binary64.targetExponent (totalExponent m e) =
      max (m.log2 + e - 52) (-1074) := by
    simp only [Float.Model.Format.targetExponent, totalExponent, Float.Model.Format.mantissaBits,
      Float.Model.Format.minExponent]
    omega
  rw [hformat, unitExponent]
  rcases Nat.eq_zero_or_pos m with rfl | hm
  · -- no bits are left, so the number is less than a unit, and the unit the smallest one
    have he := hlong.resolve_left (lt_irrefl 0)
    have hone : q < 1 := by
      rw [Int.floor_eq_iff] at hfloor
      simpa using hfloor.2
    have hlog : Int.log 2 (q * 2 ^ e) < e := by
      refine (Int.lt_zpow_iff_log_lt (by norm_num : 1 < 2) (by positivity)).1 ?_
      rw [Nat.cast_ofNat]
      exact mul_lt_of_lt_one_left (by positivity) hone
    rw [max_eq_right (by simp only [Nat.log2_zero, Nat.cast_zero]; omega), max_eq_right (by omega)]
  · rw [log_mul_zpow hm hfloor]

theorem shiftToTargetExponent_eq {m k : ℕ} {e : ℤ} {a : Accuracy}
    (h : (binary64.targetExponent (totalExponent m e) - e).toNat = k) :
    UnpackedFloat.shiftToTargetExponent binary64 m e a =
      (ExtendedMantissa.ofMantissaAndAccuracy m a >>> k, e + k) := by
  subst h
  rfl

/-- Whole mantissas that are short enough stay as they are. -/
theorem shiftToTargetExponent_of_lt {n : ℕ} {e : ℤ} (hn : n < 2 ^ 53) (he : -1074 ≤ e) :
    UnpackedFloat.shiftToTargetExponent binary64 n e .exact = (⟨n, false, false⟩, e) := by
  have hlog : n.log2 ≤ 52 := by
    rcases Nat.eq_zero_or_pos n with rfl | hpos
    · decide
    · exact Nat.lt_succ_iff.1 ((Nat.log2_lt hpos.ne').2 hn)
  have hshift : (binary64.targetExponent (totalExponent n e) - e).toNat = 0 := by
    simp only [Float.Model.Format.targetExponent, totalExponent, Float.Model.Format.mantissaBits,
      Float.Model.Format.minExponent]
    omega
  rw [shiftToTargetExponent_eq hshift, Nat.cast_zero, add_zero]
  rfl

/-- A mantissa that has become one bit too long loses a zero. -/
theorem shiftToTargetExponent_two_pow {e : ℤ} (he : -1074 ≤ e) :
    UnpackedFloat.shiftToTargetExponent binary64 (2 ^ 53) e .exact =
      (⟨2 ^ 52, false, false⟩, e + 1) := by
  have hshift : (binary64.targetExponent (totalExponent (2 ^ 53) e) - e).toNat = 1 := by
    simp only [Float.Model.Format.targetExponent, totalExponent, Float.Model.Format.mantissaBits,
      Float.Model.Format.minExponent, Nat.log2_two_pow]
    omega
  rw [shiftToTargetExponent_eq hshift]
  rfl

/-- The unpacked double has the value that an exact result is rounded to. -/
structure IsNearest (u : UnpackedFloat) (q : ℚ) : Prop where
  isCanonical : IsCanonical u
  value : exactValue u = rounded q

/-- What rounding comes to, in units of the last bit. -/
theorem isNearest_of_units {s : Sign} {q : ℚ} {n : ℕ} (hq : 0 < q) (hn : (n : ℤ) = units q)
    {u : UnpackedFloat}
    (hu : u = let (em, e) :=
        UnpackedFloat.shiftToTargetExponent binary64 n (unitExponent q) .exact
      if h : em.mantissa = 0 then .zero s else .finite s em.mantissa e (Nat.pos_of_ne_zero h)) :
    IsNearest u (signed s q) := by
  have hmin : -1074 ≤ unitExponent q := le_max_right _ _
  have hvalue : rounded (signed s q) = signed s (n * 2 ^ unitExponent q) := by
    rw [rounded_signed s hq, roundedPos, ← hn, Int.cast_natCast]
  have hle : n ≤ 2 ^ 53 := by exact_mod_cast hn ▸ units_le q
  have hcanonical : 2 ^ 52 ≤ n ∨ unitExponent q = -1074 := by
    by_cases h : unitExponent q = -1074
    · exact Or.inr h
    · exact Or.inl (by exact_mod_cast hn ▸ le_units hq h)
  -- a mantissa that is rounded up may get one bit longer, which moves on into the exponent
  rcases hle.lt_or_eq with hlt | rfl
  · rw [shiftToTargetExponent_of_lt hlt hmin] at hu
    dsimp only at hu
    split at hu
    · next hzero =>
      subst hu
      refine ⟨trivial, ?_⟩
      rw [hvalue, hzero, Nat.cast_zero, zero_mul]
      cases s <;> simp [exactValue, signed]
    · subst hu
      exact ⟨⟨hlt, hmin, hcanonical⟩, hvalue.symm⟩
  · rw [shiftToTargetExponent_two_pow hmin] at hu
    dsimp only at hu
    rw [dif_neg (by decide)] at hu
    subst hu
    refine ⟨⟨by decide, by omega, Or.inl le_rfl⟩, ?_⟩
    rw [exactValue, hvalue, add_comm, zpow_add₀ (by norm_num)]
    norm_num
    congr 1
    ring

/-- Rounding a mantissa gives the nearest double. -/
theorem isNearest_roundWithAccuracy {s : Sign} {m : ℕ} {e : ℤ} {a : Accuracy} {q : ℚ}
    (hq : 0 < q) (hstands : Stands (.ofMantissaAndAccuracy m a) q)
    (hlong : 0 < m ∨ e ≤ -1074) (hlow : e ≤ unitExponent (q * 2 ^ e)) :
    IsNearest (UnpackedFloat.roundWithAccuracy binary64 s m e a) (signed s (q * 2 ^ e)) := by
  have hfloor : ⌊q⌋ = (m : ℤ) := by
    rw [hstands.floor]
    cases a with
    | exact => rfl
    | inexact o => cases o <;> rfl
  obtain ⟨k, hk⟩ := Int.le.dest hlow
  have hshift : (binary64.targetExponent (totalExponent m e) - e).toNat = k := by
    rw [targetExponent_eq hq hfloor hlong]
    omega
  have hfirst := shiftToTargetExponent_eq (a := a) hshift
  rw [hk] at hfirst
  have hunits : ((ExtendedMantissa.ofMantissaAndAccuracy m a >>> k).roundedMantissa : ℤ) =
      units (q * 2 ^ e) := by
    rw [(hstands.shiftRight k).roundedMantissa, units, ← hk, zpow_add₀ (by norm_num), zpow_natCast]
    congr 1
    field_simp
  refine isNearest_of_units (by positivity) hunits ?_
  unfold UnpackedFloat.roundWithAccuracy
  rw [hfirst]

/-! ## Rounding a number -/

theorem decreaseExponent_value (m : ℕ) (e t : ℤ) :
    ((UnpackedFloat.decreaseExponent m e t).1 : ℚ) *
      2 ^ (UnpackedFloat.decreaseExponent m e t).2 = m * 2 ^ e := by
  unfold UnpackedFloat.decreaseExponent
  dsimp only
  rw [Nat.shiftLeft_eq, Nat.cast_mul, Nat.cast_pow, Nat.cast_ofNat, mul_assoc, ← zpow_natCast,
    ← zpow_add₀ (by norm_num)]
  congr 2
  omega

theorem isNearest_round (s : Sign) {m : ℕ} (hm : 0 < m) (e : ℤ) :
    IsNearest (UnpackedFloat.round binary64 s m e) (signed s (m * 2 ^ e)) := by
  have hpos : (0 : ℚ) < m := by exact_mod_cast hm
  have htarget := targetExponent_eq (e := e) hpos (Int.floor_natCast m) (Or.inl hm)
  have hvalue := decreaseExponent_value m e (unitExponent (m * 2 ^ e))
  have hround : UnpackedFloat.round binary64 s m e =
      let d := UnpackedFloat.decreaseExponent m e (unitExponent (m * 2 ^ e))
      UnpackedFloat.roundWithAccuracy binary64 s d.1 d.2 .exact := by
    rw [← htarget]
    rfl
  have hdecreased : 0 < (UnpackedFloat.decreaseExponent m e (unitExponent (m * 2 ^ e))).1 := by
    simp only [UnpackedFloat.decreaseExponent, Nat.shiftLeft_eq]
    positivity
  have hlow : (UnpackedFloat.decreaseExponent m e (unitExponent (m * 2 ^ e))).2 ≤
      unitExponent (m * 2 ^ e) := by
    simp only [UnpackedFloat.decreaseExponent]
    omega
  generalize UnpackedFloat.decreaseExponent m e (unitExponent (m * 2 ^ e)) = d at *
  rw [hround, ← hvalue]
  exact isNearest_roundWithAccuracy (by exact_mod_cast hdecreased) (Stands.exact _)
    (Or.inl hdecreased) (hvalue ▸ hlow)

theorem isNearest_normalize (m e : ℤ) :
    IsNearest (UnpackedFloat.normalize binary64 m e .positive) (m * 2 ^ e) := by
  unfold UnpackedFloat.normalize
  rcases lt_trichotomy m 0 with hm | rfl | hm
  · have hround := isNearest_round .negative (m := (-m).toNat) (by omega) e
    have hcast : (((-m).toNat : ℕ) : ℚ) = -m := by
      exact_mod_cast Int.toNat_of_nonneg (by omega : 0 ≤ -m)
    rw [signed, hcast, neg_mul, neg_neg] at hround
    rw [Int.compare_eq_lt.2 hm]
    exact hround
  · refine ⟨trivial, ?_⟩
    rw [Int.cast_zero, zero_mul, rounded_zero]
    rfl
  · have hround := isNearest_round .positive (m := m.toNat) (by omega) e
    have hcast : ((m.toNat : ℕ) : ℚ) = m := by
      exact_mod_cast Int.toNat_of_nonneg hm.le
    rw [signed, hcast] at hround
    rw [Int.compare_eq_gt.2 hm]
    exact hround

/-! ## Operations -/

theorem isNearest_exactValue {u : UnpackedFloat} (h : IsCanonical u) : IsNearest u (exactValue u) :=
  ⟨h, (rounded_exactValue h).symm⟩

theorem decreaseExponent_snd {m : ℕ} {e t : ℤ} (h : t ≤ e) :
    (UnpackedFloat.decreaseExponent m e t).2 = t := by
  simp only [UnpackedFloat.decreaseExponent]
  omega

/-- A mantissa with its sign, in units of a smaller exponent. -/
theorem apply_decreaseExponent (s : Sign) (m : ℕ) {e t : ℤ} (h : t ≤ e) :
    ((s.apply (UnpackedFloat.decreaseExponent m e t).1 : ℤ) : ℚ) * 2 ^ t =
      signed s (m * 2 ^ e) := by
  have hvalue := decreaseExponent_value m e t
  rw [decreaseExponent_snd h] at hvalue
  rw [apply_eq_signed, signed_mul, hvalue]

theorem isNearest_add {u w : UnpackedFloat} (hu : IsCanonical u) (hw : IsCanonical w) :
    IsNearest (u.add binary64 w) (exactValue u + exactValue w) := by
  cases u with
  | infinity => exact hu.elim
  | notANumber => exact hu.elim
  | zero s =>
    cases w with
    | infinity => exact hw.elim
    | notANumber => exact hw.elim
    | zero t =>
      have hzero : (exactValue (.zero s) + exactValue (.zero t)) = 0 := add_zero _
      rw [hzero]
      cases s <;> cases t <;> exact ⟨trivial, rfl⟩
    | finite t n f hn =>
      have hsum : exactValue (.zero s) + exactValue (.finite t n f hn) =
          exactValue (.finite t n f hn) := zero_add _
      rw [hsum]
      exact isNearest_exactValue hw
  | finite s m e hm =>
    cases w with
    | infinity => exact hw.elim
    | notANumber => exact hw.elim
    | zero t =>
      have hsum : exactValue (.finite s m e hm) + exactValue (.zero t) =
          exactValue (.finite s m e hm) := add_zero _
      rw [hsum]
      exact isNearest_exactValue hu
    | finite t n f hn =>
      -- in units of the smaller exponent both numbers are whole, and their sum is exact
      have hsum := isNearest_normalize
        (s.apply (UnpackedFloat.decreaseExponent m e (min e f)).1 +
          t.apply (UnpackedFloat.decreaseExponent n f (min e f)).1) (min e f)
      rw [Int.cast_add, add_mul, apply_decreaseExponent s m (min_le_left e f),
        apply_decreaseExponent t n (min_le_right e f)] at hsum
      exact hsum

theorem isCanonical_neg {u : UnpackedFloat} (h : IsCanonical u) : IsCanonical u.neg := by
  cases u with
  | zero => trivial
  | finite => exact h
  | infinity => exact h
  | notANumber => exact h

theorem exactValue_neg (u : UnpackedFloat) : exactValue u.neg = -exactValue u := by
  cases u with
  | finite s m e hm =>
    cases s with
    | negative => exact (neg_neg _).symm
    | positive => rfl
  | _ => exact neg_zero.symm

/-- A difference is the sum with the number of the other sign. -/
theorem sub_eq_add_of_isCanonical {u w : UnpackedFloat} (hu : IsCanonical u) (hw : IsCanonical w) :
    u.sub binary64 w = u.add binary64 w.neg := by
  cases u with
  | infinity => exact hu.elim
  | notANumber => exact hu.elim
  | zero s =>
    cases w with
    | infinity => exact hw.elim
    | notANumber => exact hw.elim
    | zero t => rfl
    | finite t n f hn => rfl
  | finite s m e hm =>
    cases w with
    | infinity => exact hw.elim
    | notANumber => exact hw.elim
    | zero t => rfl
    | finite t n f hn =>
      refine congrArg (fun k => UnpackedFloat.normalize binary64 k (min e f) .positive) ?_
      cases t with
      | negative => exact sub_neg_eq_add _ _
      | positive => rfl

theorem isNearest_sub {u w : UnpackedFloat} (hu : IsCanonical u) (hw : IsCanonical w) :
    IsNearest (u.sub binary64 w) (exactValue u - exactValue w) := by
  have hsum := isNearest_add hu (isCanonical_neg hw)
  rw [exactValue_neg, ← sub_eq_add_neg] at hsum
  rw [sub_eq_add_of_isCanonical hu hw]
  exact hsum

theorem signed_mul_signed (s t : Sign) (p q : ℚ) :
    signed s p * signed t q = signed (s * t) (p * q) := by
  cases s <;> cases t <;> simp only [signed, neg_mul, mul_neg, neg_neg]

/-- The product of two long mantissas is long enough. -/
theorem le_unitExponent_mul {m n : ℕ} {e f : ℤ} (hm : 0 < m) (hn : 0 < n)
    (hu : 2 ^ 52 ≤ m ∨ e = -1074) (hw : 2 ^ 52 ≤ n ∨ f = -1074) :
    e + f ≤ unitExponent (((m * n : ℕ) : ℚ) * 2 ^ (e + f)) := by
  have hlog : Int.log 2 (((m * n : ℕ) : ℚ) * 2 ^ (e + f)) = (m * n).log2 + (e + f) :=
    log_mul_zpow (Nat.mul_pos hm hn) (Int.floor_natCast _) _
  have hlong : 2 ^ 52 ≤ m ∨ 2 ^ 52 ≤ n → 52 ≤ (m * n).log2 := fun h => by
    refine (Nat.le_log2 (Nat.mul_pos hm hn).ne').2 ?_
    rcases h with h | h
    · exact h.trans (Nat.le_mul_of_pos_right m hn)
    · exact h.trans (Nat.le_mul_of_pos_left n hm)
  unfold unitExponent
  rw [hlog]
  omega

theorem isNearest_mul {u w : UnpackedFloat} (hu : IsCanonical u) (hw : IsCanonical w) :
    IsNearest (u.mul binary64 w) (exactValue u * exactValue w) := by
  cases u with
  | infinity => exact hu.elim
  | notANumber => exact hu.elim
  | zero s =>
    rw [show exactValue (.zero s) = 0 from rfl, zero_mul]
    cases w with
    | infinity => exact hw.elim
    | notANumber => exact hw.elim
    | zero t => exact ⟨trivial, rfl⟩
    | finite t n f hn => exact ⟨trivial, rfl⟩
  | finite s m e hm =>
    cases w with
    | infinity => exact hw.elim
    | notANumber => exact hw.elim
    | zero t =>
      rw [show exactValue (.zero t) = 0 from rfl, mul_zero]
      exact ⟨trivial, rfl⟩
    | finite t n f hn =>
      -- the product of the mantissas is exact, and long enough to be rounded only once
      have hmn : 0 < m * n := Nat.mul_pos hm hn
      have hlow := le_unitExponent_mul hm hn hu.2.2 hw.2.2
      have hproduct := isNearest_roundWithAccuracy (s := s * t) (by exact_mod_cast hmn)
        (Stands.exact (m * n)) (Or.inl hmn) hlow
      have hvalue : exactValue (.finite s m e hm) * exactValue (.finite t n f hn) =
          signed (s * t) (((m * n : ℕ) : ℚ) * 2 ^ (e + f)) := by
        rw [exactValue, exactValue, signed_mul_signed, zpow_add₀ (by norm_num), Nat.cast_mul]
        congr 1
        ring
      rw [hvalue]
      exact hproduct

/-! ### Quotients -/

/-- A whole quotient and what is left say on which side of the half the quotient lies. -/
theorem stands_fraction (m : ℕ) {d : ℕ} (hd : 0 < d) :
    Stands (.ofMantissaAndAccuracy (m / d) (UnpackedFloat.accuracyOfFraction (m % d) d))
      ((m : ℚ) / d) := by
  have hpos : (0 : ℚ) < d := by exact_mod_cast hd
  have hsplit : (m : ℚ) / d = (m / d : ℕ) + ((m % d : ℕ) : ℚ) / d := by
    rw [eq_comm, add_div' _ _ _ hpos.ne', div_left_inj' hpos.ne']
    exact_mod_cast Nat.div_add_mod' m d
  have hrest : ((m % d : ℕ) : ℚ) / d < 1 := by
    rw [div_lt_one hpos]
    exact_mod_cast Nat.mod_lt m hd
  generalize (m / d : ℕ) = k at *
  generalize m % d = r at *
  have htwice : ((2 * r : ℕ) : ℚ) / d = 2 * ((r : ℚ) / d) := by
    rw [Nat.cast_mul, Nat.cast_ofNat, mul_div_assoc]
  unfold UnpackedFloat.accuracyOfFraction
  rw [hsplit]
  split
  · next hzero =>
    rw [hzero, Nat.cast_zero, zero_div, add_zero]
    rfl
  · next hne =>
    have hr : 0 < (r : ℚ) / d := div_pos (by exact_mod_cast Nat.pos_of_ne_zero hne) hpos
    -- the rest is to half the divisor as the fraction is to one half
    rcases lt_trichotomy (2 * r) d with hlt | heq | hgt
    · rw [Nat.compare_eq_lt.2 hlt]
      have hhalf : ((2 * r : ℕ) : ℚ) / d < 1 := (div_lt_one hpos).2 (by exact_mod_cast hlt)
      change (k : ℚ) < k + r / d ∧ k + (r : ℚ) / d < k + 1 / 2
      constructor <;> linarith
    · rw [Nat.compare_eq_eq.2 heq]
      have hhalf : ((2 * r : ℕ) : ℚ) / d = 1 := by rw [heq, div_self hpos.ne']
      change k + (r : ℚ) / d = k + 1 / 2
      linarith
    · rw [Nat.compare_eq_gt.2 hgt]
      have hhalf : 1 < ((2 * r : ℕ) : ℚ) / d := (one_lt_div hpos).2 (by exact_mod_cast hgt)
      change k + 1 / 2 < k + (r : ℚ) / d ∧ k + (r : ℚ) / d < k + 1
      constructor <;> linarith

theorem le_log_quotient {m n : ℕ} {e f : ℤ} (hm : 0 < m) (hn : 0 < n) :
    m.log2 + e - (n.log2 + f) - 1 ≤ Int.log 2 ((m * 2 ^ e) / (n * 2 ^ f) : ℚ) := by
  have hmpos : (0 : ℚ) < m := by exact_mod_cast hm
  have hnpos : (0 : ℚ) < n := by exact_mod_cast hn
  refine (Int.zpow_le_iff_le_log (by norm_num : 1 < 2) (by positivity)).1 ?_
  have hlow : (2 : ℚ) ^ (m.log2 : ℤ) ≤ m := by exact_mod_cast Nat.log2_self_le hm.ne'
  have hhigh : (n : ℚ) ≤ 2 ^ (n.log2 + 1 : ℤ) := by exact_mod_cast Nat.lt_log2_self.le
  have hexponent : m.log2 + e - (n.log2 + f) - 1 = (m.log2 + e) - (n.log2 + 1 + f) := by omega
  rw [Nat.cast_ofNat, hexponent, zpow_sub₀ (by norm_num), zpow_add₀ (by norm_num),
    zpow_add₀ (by norm_num)]
  gcongr

/-- A quotient of canonical doubles has enough bits. -/
theorem divCore_spec {m n : ℕ} {e f : ℤ} (hm : 0 < m) (hn : 0 < n) :
    ∃ (k : ℕ) (g : ℤ) (a : Accuracy) (q : ℚ),
      UnpackedFloat.divCore binary64 m e n f = (k, g, a) ∧
      0 < q ∧ q * 2 ^ g = (m * 2 ^ e) / (n * 2 ^ f) ∧
      Stands (.ofMantissaAndAccuracy k a) q ∧ (0 < k ∨ g ≤ -1074) ∧
      g ≤ unitExponent (q * 2 ^ g) := by
  -- the dividend is shifted by `k` bits, which brings the quotient to the exponent `g`
  obtain ⟨g, hg⟩ : ∃ g, g = min (e - f)
      (binary64.targetExponent (totalExponent m e - totalExponent n f)) := ⟨_, rfl⟩
  obtain ⟨k, hk⟩ := Int.le.dest (hg ▸ min_le_left _ _ : g ≤ e - f)
  have hmpos : (0 : ℚ) < m := by exact_mod_cast hm
  have hnpos : (0 : ℚ) < n := by exact_mod_cast hn
  have hcore : UnpackedFloat.divCore binary64 m e n f =
      (m * 2 ^ k / n, g, UnpackedFloat.accuracyOfFraction (m * 2 ^ k % n) n) := by
    have hshift : (e - f - g).toNat = k := by omega
    unfold UnpackedFloat.divCore
    dsimp only
    rw [← hg, hshift, Nat.shiftLeft_eq]
  have hvalue : ((m * 2 ^ k : ℕ) : ℚ) / n * 2 ^ g = (m * 2 ^ e) / (n * 2 ^ f) := by
    have he : e = g + k + f := by omega
    rw [he, zpow_add₀ (by norm_num), zpow_add₀ (by norm_num), Nat.cast_mul, Nat.cast_pow,
      Nat.cast_ofNat, zpow_natCast]
    field_simp
  have hformat : binary64.targetExponent (totalExponent m e - totalExponent n f) =
      max (m.log2 + e - (n.log2 + f) - 53) (-1074) := by
    simp only [Float.Model.Format.targetExponent, totalExponent, Float.Model.Format.mantissaBits,
      Float.Model.Format.minExponent]
    omega
  have hlog := le_log_quotient (e := e) (f := f) hm hn
  refine ⟨_, g, _, _, hcore, by positivity, hvalue, stands_fraction _ hn, ?_, ?_⟩
  · by_cases hmin : g ≤ -1074
    · exact Or.inr hmin
    · have hlong : n.log2 + 1 ≤ m.log2 + k := by omega
      refine Or.inl (Nat.div_pos ?_ hn)
      calc n ≤ 2 ^ (n.log2 + 1) := Nat.lt_log2_self.le
        _ ≤ 2 ^ (m.log2 + k) := Nat.pow_le_pow_right (by norm_num) hlong
        _ = 2 ^ m.log2 * 2 ^ k := pow_add _ _ _
        _ ≤ m * 2 ^ k := Nat.mul_le_mul_right _ (Nat.log2_self_le hm.ne')
  · rw [hvalue, unitExponent]
    omega

theorem isNearest_div {u w : UnpackedFloat} (hu : IsCanonical u) (hw : IsCanonical w)
    (hne : exactValue w ≠ 0) : IsNearest (u.div binary64 w) (exactValue u / exactValue w) := by
  cases w with
  | infinity => exact hw.elim
  | notANumber => exact hw.elim
  | zero t => exact absurd rfl hne
  | finite t n f hn =>
    cases u with
    | infinity => exact hu.elim
    | notANumber => exact hu.elim
    | zero s =>
      rw [show exactValue (.zero s) = 0 from rfl, zero_div]
      exact ⟨trivial, rfl⟩
    | finite s m e hm =>
      obtain ⟨k, g, a, q, hcore, hq, hvalue, hstands, hlong, hlow⟩ :=
        divCore_spec (e := e) (f := f) hm hn
      have hquotient := isNearest_roundWithAccuracy (s := s / t) hq hstands hlong hlow
      have hsigned : exactValue (.finite s m e hm) / exactValue (.finite t n f hn) =
          signed (s / t) (q * 2 ^ g) := by
        rw [hvalue]
        cases s <;> cases t <;> simp only [exactValue, signed, neg_div, div_neg, neg_neg] <;> rfl
      rw [hsigned]
      have hdiv : (UnpackedFloat.finite s m e hm).div binary64 (.finite t n f hn) =
          UnpackedFloat.roundWithAccuracy binary64 (s / t) k g a := by
        change (let d := UnpackedFloat.divCore binary64 m e n f
          UnpackedFloat.roundWithAccuracy binary64 (s / t) d.1 d.2.1 d.2.2) = _
        rw [hcore]
      rw [hdiv]
      exact hquotient

end Binary64
end UtmTiles
