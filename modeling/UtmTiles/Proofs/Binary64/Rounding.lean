import Mathlib.Algebra.Order.Field.Power
import Mathlib.Data.Int.Log
import Mathlib.Data.Rat.Floor
import Mathlib.Tactic.FieldSimp
import Mathlib.Tactic.Linarith
import Mathlib.Tactic.NormNum
import Mathlib.Tactic.Positivity

/-!
# Rounding exact numbers to doubles

Doubles are whole multiples of a power of two with fewer than `2 ^ 53` of them, and an arithmetic
operation gives the double nearest to its exact result. `rounded` is that double's value, as a
function of the exact result alone. It is monotone (`rounded_mono`), and it keeps the values of
doubles (`rounded_of_eq`); almost everything about computations with doubles follows from these two.

There is no largest double here: a value of `2 ^ 1024` or more stands for an infinity.
-/

namespace UtmTiles
namespace Binary64

/-! ## Whole numbers -/

/-- The nearest whole number; a half is rounded to the even one of its neighbours. -/
def nearestEven (q : ℚ) : ℤ :=
  if 2 * (q - ⌊q⌋) < 1 then ⌊q⌋
  else if 1 < 2 * (q - ⌊q⌋) then ⌊q⌋ + 1
  else ⌊q⌋ + ⌊q⌋ % 2

theorem floor_le_nearestEven (q : ℚ) : ⌊q⌋ ≤ nearestEven q := by
  unfold nearestEven
  split_ifs <;> omega

theorem nearestEven_le_floor (q : ℚ) : nearestEven q ≤ ⌊q⌋ + 1 := by
  unfold nearestEven
  split_ifs <;> omega

theorem nearestEven_intCast (n : ℤ) : nearestEven n = n := by
  unfold nearestEven
  rw [Int.floor_intCast, sub_self, mul_zero, if_pos one_pos]

theorem nearestEven_mono {p q : ℚ} (h : p ≤ q) : nearestEven p ≤ nearestEven q := by
  rcases (Int.floor_le_floor h).lt_or_eq with hlt | heq
  · have hp := nearestEven_le_floor p
    have hq := floor_le_nearestEven q
    omega
  · -- with one floor, the parts after the point are in order
    unfold nearestEven
    rw [heq]
    split_ifs <;> first | omega | (exfalso; linarith)

/-! ## Multiples of powers of two -/

/-- The exponent of the last bit that a double near to a positive number has. -/
def unitExponent (q : ℚ) : ℤ := max (Int.log 2 q - 52) (-1074)

theorem unitExponent_mono {p q : ℚ} (hp : 0 < p) (h : p ≤ q) : unitExponent p ≤ unitExponent q :=
  max_le_max_right _ (Int.sub_le_sub_right (Int.log_mono_right hp h) 52)

theorem lt_of_unitExponent (q : ℚ) : q < 2 ^ (53 + unitExponent q) := by
  refine (Int.lt_zpow_succ_log_self (by norm_num : 1 < 2) q).trans_le ?_
  refine zpow_le_zpow_right₀ (by norm_num) ?_
  unfold unitExponent
  omega

theorem le_of_unitExponent {q : ℚ} (hq : 0 < q) (h : unitExponent q ≠ -1074) :
    2 ^ (52 + unitExponent q) ≤ q := by
  have hlog : (2 : ℚ) ^ Int.log 2 q ≤ q := Int.zpow_log_le_self (by norm_num) hq
  refine le_trans (zpow_le_zpow_right₀ (by norm_num) ?_) hlog
  unfold unitExponent at *
  omega

/-- Numbers below a power of two have few bits after the point. -/
theorem unitExponent_le {q : ℚ} (hq : 0 < q) {e : ℤ} (he : -1074 ≤ e) (h : q < 2 ^ (53 + e)) :
    unitExponent q ≤ e := by
  have hlog := (Int.lt_zpow_iff_log_lt (by norm_num : 1 < 2) hq).1 h
  unfold unitExponent
  omega

/-- An exact positive result in units of its last bit, rounded. -/
def units (q : ℚ) : ℤ := nearestEven (q / 2 ^ unitExponent q)

theorem units_le (q : ℚ) : units q ≤ 2 ^ 53 := by
  have hlt : q / 2 ^ unitExponent q < (2 ^ 53 : ℤ) := by
    rw [div_lt_iff₀ (by positivity)]
    calc q < 2 ^ (53 + unitExponent q) := lt_of_unitExponent q
      _ = (2 ^ 53 : ℤ) * 2 ^ unitExponent q := by
        rw [zpow_add₀ (by norm_num)]
        norm_num
  exact (nearestEven_le_floor _).trans (Int.floor_lt.2 hlt)

theorem le_units {q : ℚ} (hq : 0 < q) (h : unitExponent q ≠ -1074) : 2 ^ 52 ≤ units q := by
  have hle : ((2 ^ 52 : ℤ) : ℚ) ≤ q / 2 ^ unitExponent q := by
    rw [le_div_iff₀ (by positivity)]
    refine le_of_eq_of_le ?_ (le_of_unitExponent hq h)
    rw [zpow_add₀ (by norm_num)]
    norm_num
  exact (nearestEven_intCast _).ge.trans (nearestEven_mono hle)

theorem units_nonneg {q : ℚ} (hq : 0 < q) : 0 ≤ units q := by
  have hfloor : 0 ≤ ⌊q / 2 ^ unitExponent q⌋ := Int.floor_nonneg.2 (by positivity)
  exact hfloor.trans (floor_le_nearestEven _)

/-- The value that an exact positive result is rounded to. -/
def roundedPos (q : ℚ) : ℚ := units q * 2 ^ unitExponent q

theorem roundedPos_nonneg {q : ℚ} (hq : 0 < q) : 0 ≤ roundedPos q := by
  have hunits : (0 : ℚ) ≤ units q := by exact_mod_cast units_nonneg hq
  unfold roundedPos
  positivity

theorem roundedPos_le (q : ℚ) : roundedPos q ≤ 2 ^ (53 + unitExponent q) := by
  calc roundedPos q ≤ (2 ^ 53 : ℤ) * 2 ^ unitExponent q :=
        mul_le_mul_of_nonneg_right (by exact_mod_cast units_le q) (by positivity)
    _ = 2 ^ (53 + unitExponent q) := by
      rw [zpow_add₀ (by norm_num)]
      norm_num

theorem le_roundedPos {q : ℚ} (hq : 0 < q) (h : unitExponent q ≠ -1074) :
    2 ^ (52 + unitExponent q) ≤ roundedPos q := by
  calc (2 : ℚ) ^ (52 + unitExponent q) = (2 ^ 52 : ℤ) * 2 ^ unitExponent q := by
        rw [zpow_add₀ (by norm_num)]
        norm_num
    _ ≤ roundedPos q :=
      mul_le_mul_of_nonneg_right (by exact_mod_cast le_units hq h) (by positivity)

theorem roundedPos_mono {p q : ℚ} (hp : 0 < p) (h : p ≤ q) : roundedPos p ≤ roundedPos q := by
  have hq := hp.trans_le h
  rcases (unitExponent_mono hp h).lt_or_eq with hlt | heq
  · -- a power of two lies between the two
    have hmin : -1074 ≤ unitExponent p := le_max_right _ _
    have hbetween : (2 : ℚ) ^ (53 + unitExponent p) ≤ 2 ^ (52 + unitExponent q) :=
      zpow_le_zpow_right₀ (by norm_num) (by omega)
    exact (roundedPos_le p).trans (hbetween.trans (le_roundedPos hq (by omega)))
  · unfold roundedPos units
    rw [heq]
    refine mul_le_mul_of_nonneg_right ?_ (by positivity)
    exact_mod_cast nearestEven_mono (div_le_div_of_nonneg_right h (by positivity))

/-- A multiple of a power of two stays as it is. -/
theorem roundedPos_of_eq {q : ℚ} (hq : 0 < q) {m : ℕ} {e : ℤ} (hm : m < 2 ^ 53) (he : -1074 ≤ e)
    (h : q = m * 2 ^ e) : roundedPos q = q := by
  have hlt : q < 2 ^ (53 + e) := by
    rw [h, zpow_add₀ (by norm_num)]
    refine mul_lt_mul_of_pos_right ?_ (by positivity)
    exact_mod_cast hm
  obtain ⟨k, hk⟩ := Int.le.dest (unitExponent_le hq he hlt)
  have hwhole : q / 2 ^ unitExponent q = ((m * 2 ^ k : ℤ) : ℚ) := by
    rw [div_eq_iff (by positivity)]
    conv_lhs => rw [h, ← hk, zpow_add₀ (by norm_num)]
    push_cast
    rw [zpow_natCast]
    ring
  unfold roundedPos units
  rw [hwhole, nearestEven_intCast, ← hwhole, div_mul_cancel₀ _ (by positivity)]

/-! ## Signs -/

/-- The value that an exact result is rounded to. -/
def rounded (q : ℚ) : ℚ := if 0 < q then roundedPos q else if q < 0 then -roundedPos (-q) else 0

theorem rounded_of_pos {q : ℚ} (h : 0 < q) : rounded q = roundedPos q := if_pos h

theorem rounded_zero : rounded 0 = 0 := rfl

theorem rounded_neg (q : ℚ) : rounded (-q) = -rounded q := by
  unfold rounded
  rcases lt_trichotomy q 0 with h | rfl | h
  · rw [if_pos (neg_pos.2 h), if_neg h.not_gt, if_pos h, neg_neg]
  · norm_num
  · rw [if_neg (by linarith), if_pos (neg_lt_zero.2 h), if_pos h, neg_neg]

theorem rounded_nonneg {q : ℚ} (h : 0 ≤ q) : 0 ≤ rounded q := by
  rcases h.eq_or_lt with rfl | h
  · exact rounded_zero.ge
  · rw [rounded_of_pos h]
    exact roundedPos_nonneg h

/-- Rounding keeps numbers in order. -/
theorem rounded_mono {p q : ℚ} (h : p ≤ q) : rounded p ≤ rounded q := by
  rcases lt_or_ge 0 p with hp | hp
  · rw [rounded_of_pos hp, rounded_of_pos (hp.trans_le h)]
    exact roundedPos_mono hp h
  · have hnonpos : rounded p ≤ 0 := by
      rw [← neg_neg p, rounded_neg, neg_nonpos]
      exact rounded_nonneg (neg_nonneg.2 hp)
    rcases lt_or_ge q 0 with hq | hq
    · rw [← neg_neg p, ← neg_neg q, rounded_neg, rounded_neg (-q), neg_le_neg_iff,
        rounded_of_pos (neg_pos.2 hq), rounded_of_pos (neg_pos.2 (h.trans_lt hq))]
      exact roundedPos_mono (neg_pos.2 hq) (neg_le_neg h)
    · exact hnonpos.trans (rounded_nonneg hq)

/-- The value of a double stays as it is. -/
theorem rounded_of_eq {q : ℚ} {m : ℤ} {e : ℤ} (hm : |m| < 2 ^ 53) (he : -1074 ≤ e)
    (h : q = m * 2 ^ e) : rounded q = q := by
  have hpos : ∀ {p : ℚ} {k : ℤ}, |k| < 2 ^ 53 → p = k * 2 ^ e → 0 < p → rounded p = p := by
    intro p k hk hp hp0
    have hk0 : 0 < k := by
      by_contra hneg
      have hle : (k : ℚ) ≤ 0 := by exact_mod_cast not_lt.1 hneg
      have hprod : (k : ℚ) * 2 ^ e ≤ 0 := mul_nonpos_of_nonpos_of_nonneg hle (by positivity)
      linarith
    rw [abs_of_pos hk0] at hk
    rw [rounded_of_pos hp0]
    refine roundedPos_of_eq hp0 (m := k.toNat) (by omega) he ?_
    rw [hp]
    congr 1
    exact_mod_cast (Int.toNat_of_nonneg hk0.le).symm
  rcases lt_trichotomy q 0 with hq | rfl | hq
  · rw [← neg_inj, ← rounded_neg]
    refine hpos (k := -m) (by rwa [abs_neg]) ?_ (neg_pos.2 hq)
    rw [h]
    push_cast
    ring
  · exact rounded_zero
  · exact hpos hm h hq

/-- Whole numbers of moderate size are values of doubles. -/
theorem rounded_intCast {n : ℤ} (h : |n| < 2 ^ 53) : rounded n = n :=
  rounded_of_eq (e := 0) h (by norm_num) (by rw [zpow_zero, mul_one])

end Binary64
end UtmTiles
