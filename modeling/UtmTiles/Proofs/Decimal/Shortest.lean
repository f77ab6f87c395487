import UtmTiles.Decimal.Shortest
import UtmTiles.Proofs.Binary64.Nearest

/-!
# The shortest decimal reads back

Every number in the interval of a double is rounded to that double (`rounded_of_holds`). The search
for the shortest decimal gives a decimal in the interval (`holds_shortest`): a hit on any grid lies in
it, and the finest grid of the search has a point between the double and the neighbour below.
-/

namespace UtmTiles
namespace Decimal

open Binary64

/-! ## Intervals -/

/-- The number lies in the interval. -/
def Interval.Holds (i : Interval) (q : ℚ) : Prop :=
  (i.low * 2 ^ i.unit < q ∨ i.closed = true ∧ i.low * 2 ^ i.unit = q) ∧
    (q < i.high * 2 ^ i.unit ∨ i.closed = true ∧ q = i.high * 2 ^ i.unit)

section Rounding

variable {p : Parts} {q : ℚ}

/-- The lower bound, in units of the last bit. -/
def lowerBound (p : Parts) : ℚ :=
  if p.mantissa = 0x10000000000000 ∧ -1074 < p.exponent then p.mantissa - 1 / 4
  else p.mantissa - 1 / 2

theorem holds_ofParts_iff (hpos : 0 < p.mantissa) : (Interval.ofParts p).Holds q ↔
    (lowerBound p * 2 ^ p.exponent < q ∨
      p.mantissa % 2 = 0 ∧ lowerBound p * 2 ^ p.exponent = q) ∧
    (q < (p.mantissa + 1 / 2) * 2 ^ p.exponent ∨
      p.mantissa % 2 = 0 ∧ q = (p.mantissa + 1 / 2) * 2 ^ p.exponent) := by
  have hquarter : (2 : ℚ) ^ (p.exponent - 2) = 2 ^ p.exponent / 4 := by
    rw [zpow_sub₀ (by norm_num)]
    norm_num
  have hlow : ((Interval.ofParts p).low : ℚ) * 2 ^ (Interval.ofParts p).unit =
      lowerBound p * 2 ^ p.exponent := by
    simp only [Interval.ofParts, hquarter, lowerBound]
    by_cases hpower : p.mantissa = 0x10000000000000 ∧ -1074 < p.exponent
    · rw [if_pos hpower, if_pos hpower, Nat.cast_sub (by omega)]
      push_cast
      ring
    · rw [if_neg hpower, if_neg hpower, Nat.cast_sub (by omega)]
      push_cast
      ring
  have hhigh : ((Interval.ofParts p).high : ℚ) * 2 ^ (Interval.ofParts p).unit =
      (p.mantissa + 1 / 2) * 2 ^ p.exponent := by
    simp only [Interval.ofParts, hquarter]
    push_cast
    ring
  have hclosed : (Interval.ofParts p).closed = true ↔ p.mantissa % 2 = 0 := beq_iff_eq
  rw [Interval.Holds, hlow, hhigh, hclosed]

/-- A number between the middles to the neighbors of a double is rounded to the double. A middle is if
the mantissa is even. Below a power of two the neighbor is nearer, so that such numbers are left out. -/
theorem rounded_of_between {m : ℕ} {e : ℤ} (hpos : 0 < m) (hlt : m < 2 ^ 53) (hmin : -1074 ≤ e)
    (hlong : 2 ^ 52 ≤ m ∨ e = -1074) (hpower : m = 0x10000000000000 → -1074 < e → m * 2 ^ e ≤ q)
    (hlow : (m - 1 / 2) * 2 ^ e < q ∨ m % 2 = 0 ∧ (m - 1 / 2) * 2 ^ e = q)
    (hhigh : q < (m + 1 / 2) * 2 ^ e ∨ m % 2 = 0 ∧ q = (m + 1 / 2) * 2 ^ e) :
    rounded q = m * 2 ^ e := by
  have hunit : (0 : ℚ) < 2 ^ e := by positivity
  have hone : (1 : ℚ) ≤ m := by exact_mod_cast hpos
  have hbelow : (m : ℚ) + 1 ≤ 2 ^ 53 := by exact_mod_cast hlt
  have hscale : ∀ k : ℤ, (2 : ℚ) ^ (k + e) = 2 ^ k * 2 ^ e := fun k => zpow_add₀ (by norm_num) k e
  have hlower : (m - 1 / 2) * 2 ^ e ≤ q := hlow.elim LT.lt.le fun h => h.2.le
  have hupper : q ≤ (m + 1 / 2) * 2 ^ e := hhigh.elim LT.lt.le fun h => h.2.le
  rw [← Int.cast_natCast (R := ℚ) m]
  refine rounded_of_near (by nlinarith) hmin ?_ ?_ ?_ ?_
  · rw [hscale]
    refine hupper.trans_lt (mul_lt_mul_of_pos_right ?_ hunit)
    norm_num at hbelow ⊢
    linarith
  · refine or_iff_not_imp_right.2 fun hexponent => ?_
    rw [hscale]
    have hlong := hlong.resolve_right hexponent
    by_cases hm : m = 0x10000000000000
    · have hge := hpower hm (by omega)
      rw [hm] at hge
      norm_num at hge ⊢
      exact hge
    · have hlonger : (2 : ℚ) ^ 52 + 1 ≤ m := by
        exact_mod_cast Nat.succ_le_of_lt (lt_of_le_of_ne hlong (Ne.symm hm))
      refine le_trans (mul_le_mul_of_nonneg_right ?_ hunit.le) hlower
      exact le_trans (by norm_num) (sub_le_sub_right hlonger (1 / 2))
  · rw [abs_le]
    push_cast
    constructor <;> linarith
  · intro htie
    have heven : m % 2 = 0 := by
      rcases abs_eq (by positivity) |>.1 htie with hup | hdown
      · refine (hhigh.resolve_left fun h => ?_).1
        push_cast at hup
        linarith
      · refine (hlow.resolve_left fun h => ?_).1
        push_cast at hdown
        linarith
    omega

/-- All numbers in the interval of a double are rounded to it. -/
theorem rounded_of_holds (hp : p.IsCanonical) (hpos : 0 < p.mantissa)
    (h : (Interval.ofParts p).Holds q) : rounded q = p.mantissa * 2 ^ p.exponent := by
  obtain ⟨hlow, hhigh⟩ := (holds_ofParts_iff hpos).1 h
  unfold lowerBound at hlow
  by_cases hpower : p.mantissa = 0x10000000000000 ∧ -1074 < p.exponent
  · rw [if_pos hpower] at hlow
    by_cases hless : q < p.mantissa * 2 ^ p.exponent
    · have hmantissa : (p.mantissa : ℚ) = 2 ^ 52 := by
        rw [hpower.1]
        norm_num
      rw [hmantissa] at hlow hless ⊢
      exact rounded_of_near_below_power hpower.2 (hlow.elim LT.lt.le fun h => h.2.le) hless
    · have hge := not_lt.1 hless
      have hunit : (0 : ℚ) < 2 ^ p.exponent := by positivity
      refine rounded_of_between hpos hp.mantissa_lt hp.le_exponent hp.long (fun _ _ => hge)
        (Or.inl ?_) hhigh
      linarith
  · rw [if_neg hpower] at hlow
    exact rounded_of_between hpos hp.mantissa_lt hp.le_exponent hp.long
      (fun hm hexponent => absurd ⟨hm, hexponent⟩ hpower) hlow hhigh

end Rounding

/-! ## Grids -/

namespace Interval

variable {i : Interval} {tie : Tie} {k : ℤ}

/-- The double lies strictly between the bounds. -/
structure IsProper (i : Interval) : Prop where
  low_lt : i.low < i.mid
  mid_lt : i.mid < i.high

/-- The multiples of `2 ^ unit` over the denominator that they have in common with those of
`10 ^ k`. -/
def scale (unit k : ℤ) : ℕ := Nat.pow 2 unit.toNat * Nat.pow 10 (-k).toNat

/-- The multiples of `10 ^ k` over the denominator that they have in common with those of
`2 ^ unit`. -/
def step (unit k : ℤ) : ℕ := Nat.pow 10 k.toNat * Nat.pow 2 (-unit).toNat

theorem scale_pos (unit k : ℤ) : 0 < scale unit k :=
  Nat.mul_pos (Nat.pow_pos (by decide)) (Nat.pow_pos (by decide))

theorem step_pos (unit k : ℤ) : 0 < step unit k :=
  Nat.mul_pos (Nat.pow_pos (by decide)) (Nat.pow_pos (by decide))

theorem exists_denominator (unit k : ℤ) : ∃ d : ℚ, 0 < d ∧
    (scale unit k : ℚ) = 2 ^ unit * d ∧ (step unit k : ℚ) = 10 ^ k * d := by
  have htwo := zpow_mul_pow_toNat (b := 2) (by norm_num) unit
  have hten := zpow_mul_pow_toNat (b := 10) (by norm_num) k
  refine ⟨2 ^ (-unit).toNat * 10 ^ (-k).toNat, by positivity, ?_, ?_⟩
  · simp only [scale, Nat.pow_eq, Nat.cast_mul, Nat.cast_pow, Nat.cast_ofNat]
    rw [← htwo, mul_assoc]
  · simp only [step, Nat.pow_eq, Nat.cast_mul, Nat.cast_pow, Nat.cast_ofNat]
    rw [← hten]
    ring

/-- Over the common denominator, numbers are compared as whole numbers. -/
theorem lt_grid_iff (unit k : ℤ) (a n : ℕ) :
    ((a : ℚ) * 2 ^ unit < n * 10 ^ k ↔ a * scale unit k < n * step unit k) ∧
      ((n : ℚ) * 10 ^ k < a * 2 ^ unit ↔ n * step unit k < a * scale unit k) := by
  obtain ⟨d, hd, hscale, hstep⟩ := exists_denominator unit k
  have hleft : ((a * scale unit k : ℕ) : ℚ) = a * 2 ^ unit * d := by
    rw [Nat.cast_mul, hscale, mul_assoc]
  have hright : ((n * step unit k : ℕ) : ℚ) = n * 10 ^ k * d := by
    rw [Nat.cast_mul, hstep, mul_assoc]
  rw [← Nat.cast_lt (α := ℚ), ← Nat.cast_lt (α := ℚ), hleft, hright]
  exact ⟨(mul_lt_mul_iff_of_pos_right hd).symm, (mul_lt_mul_iff_of_pos_right hd).symm⟩

theorem eq_grid_iff (unit k : ℤ) (a n : ℕ) :
    (a : ℚ) * 2 ^ unit = n * 10 ^ k ↔ a * scale unit k = n * step unit k := by
  have hlt := lt_grid_iff unit k a n
  rw [eq_iff_le_not_lt, ← not_lt, hlt.1, hlt.2]
  omega

theorem holds_grid_iff {n : ℕ} : i.Holds (n * 10 ^ k) ↔
    (i.low * scale i.unit k < n * step i.unit k ∨
      i.closed = true ∧ i.low * scale i.unit k = n * step i.unit k) ∧
    (n * step i.unit k < i.high * scale i.unit k ∨
      i.closed = true ∧ n * step i.unit k = i.high * scale i.unit k) := by
  rw [Holds, (lt_grid_iff _ _ _ _).1, (lt_grid_iff _ _ _ _).2, eq_grid_iff,
    eq_comm (a := (n : ℚ) * 10 ^ k), eq_grid_iff, eq_comm (a := i.high * _)]

/-- The last point of the grid that is not above the middle. -/
def below (i : Interval) (k : ℤ) : ℕ := i.mid * scale i.unit k / step i.unit k

/-- The point below the middle is not below the lower bound. -/
def hitsBelow (i : Interval) (k : ℤ) : Bool :=
  i.low * scale i.unit k < i.below k * step i.unit k ||
    (i.closed && i.low * scale i.unit k == i.below k * step i.unit k)

/-- The point above the middle is not above the upper bound. -/
def hitsAbove (i : Interval) (k : ℤ) : Bool :=
  (i.below k + 1) * step i.unit k < i.high * scale i.unit k ||
    (i.closed && (i.below k + 1) * step i.unit k == i.high * scale i.unit k)

theorem mid_lt_above (i : Interval) (k : ℤ) :
    i.mid * scale i.unit k < (i.below k + 1) * step i.unit k := by
  rw [mul_comm (_ + 1)]
  exact Nat.lt_mul_div_succ _ (step_pos _ _)

theorem holds_below_iff (hi : i.IsProper) :
    i.Holds (i.below k * 10 ^ k) ↔ i.hitsBelow k = true := by
  have hmid : i.below k * step i.unit k ≤ i.mid * scale i.unit k := Nat.div_mul_le_self _ _
  have hhigh : i.below k * step i.unit k < i.high * scale i.unit k :=
    hmid.trans_lt (Nat.mul_lt_mul_of_pos_right hi.mid_lt (scale_pos _ _))
  rw [holds_grid_iff, and_iff_left (Or.inl hhigh), hitsBelow, Bool.or_eq_true, Bool.and_eq_true,
    decide_eq_true_iff, beq_iff_eq]

theorem holds_above_iff (hi : i.IsProper) :
    i.Holds ((i.below k + 1 : ℕ) * 10 ^ k) ↔ i.hitsAbove k = true := by
  have hlow : i.low * scale i.unit k < (i.below k + 1) * step i.unit k :=
    (Nat.mul_lt_mul_of_pos_right hi.low_lt (scale_pos _ _)).trans (i.mid_lt_above k)
  rw [holds_grid_iff, and_iff_right (Or.inl hlow), hitsAbove, Bool.or_eq_true, Bool.and_eq_true,
    decide_eq_true_iff, beq_iff_eq]

/-- Of the two points around the middle, one that hits is taken. -/
theorem onGrid?_cases (i : Interval) (tie : Tie) (k : ℤ) :
    (i.hitsBelow k = true ∧ i.onGrid? tie k = some (i.below k)) ∨
      (i.hitsAbove k = true ∧ i.onGrid? tie k = some (i.below k + 1)) ∨
      (i.hitsBelow k = false ∧ i.hitsAbove k = false ∧ i.onGrid? tie k = none) := by
  unfold onGrid?
  dsimp only
  split
  · next hbelow habove =>
    split
    · exact Or.inl ⟨hbelow, rfl⟩
    · exact Or.inr (Or.inl ⟨habove, rfl⟩)
  · next hbelow _ => exact Or.inl ⟨hbelow, rfl⟩
  · next habove => exact Or.inr (Or.inl ⟨habove, rfl⟩)
  · next hbelow habove => exact Or.inr (Or.inr ⟨hbelow, habove, rfl⟩)

theorem holds_of_onGrid? (hi : i.IsProper) {n : ℕ} (h : i.onGrid? tie k = some n) :
    i.Holds (n * 10 ^ k) := by
  rcases i.onGrid?_cases tie k with ⟨hhit, hgrid⟩ | ⟨hhit, hgrid⟩ | ⟨-, -, hgrid⟩
  · obtain rfl := Option.some.inj (hgrid.symm.trans h)
    exact (holds_below_iff hi).2 hhit
  · obtain rfl := Option.some.inj (hgrid.symm.trans h)
    exact (holds_above_iff hi).2 hhit
  · cases hgrid.symm.trans h

/-- A grid finer than the last bit has a point between the lower bound and the middle. -/
theorem isSome_onGrid? (hi : i.IsProper) (tie : Tie) (hk : (10 : ℚ) ^ k ≤ 2 ^ i.unit) :
    (i.onGrid? tie k).isSome = true := by
  obtain ⟨d, hd, hscale, hstep⟩ := exists_denominator i.unit k
  have hfine : step i.unit k ≤ scale i.unit k := by
    rw [← Nat.cast_le (α := ℚ), hscale, hstep]
    exact mul_le_mul_of_nonneg_right hk hd.le
  have hlow : (i.low + 1) * scale i.unit k ≤ i.mid * scale i.unit k :=
    Nat.mul_le_mul_right _ hi.low_lt
  have hmid := i.mid_lt_above k
  have hhit : i.low * scale i.unit k < i.below k * step i.unit k := by
    rw [Nat.add_mul, one_mul] at hlow hmid
    omega
  rcases i.onGrid?_cases tie k with ⟨-, hgrid⟩ | ⟨-, hgrid⟩ | ⟨hmiss, -, -⟩
  · rw [hgrid, Option.isSome_some]
  · rw [hgrid, Option.isSome_some]
  · rw [hitsBelow, decide_eq_true hhit, Bool.true_or] at hmiss
    cases hmiss

/-- The search ends at a grid with a point in the interval, if its last grid is one. -/
theorem onGrid?_search {fuel : ℕ} (h : (i.onGrid? tie (k - fuel)).isSome = true) :
    i.onGrid? tie (i.search tie fuel k).exponent = some (i.search tie fuel k).digits := by
  induction fuel generalizing k with
  | zero =>
    rw [Nat.cast_zero, sub_zero] at h
    obtain ⟨n, hn⟩ := Option.isSome_iff_exists.1 h
    simp only [search, hn, Option.getD_some]
  | succ fuel ih =>
    unfold search
    cases hgrid : i.onGrid? tie k with
    | some n => exact hgrid
    | none =>
      refine ih ?_
      rwa [Nat.cast_succ, add_comm, ← sub_sub] at h

end Interval

/-! ## The shortest decimal -/

theorem zpow_le_zpow_of_nonpos {a b : ℚ} (ha : 0 < a) (h : a ≤ b) {k : ℤ} (hk : k ≤ 0) :
    b ^ k ≤ a ^ k := by
  have hinv := inv_anti₀ (zpow_pos ha (-k)) (zpow_le_zpow_left₀ (neg_nonneg.2 hk) ha.le h)
  rwa [← zpow_neg, ← zpow_neg, neg_neg] at hinv

/-- Powers of ten are compared with powers of two by `10 ^ 3 ≤ 2 ^ 10` and `2 ^ 93 ≤ 10 ^ 28`. -/
theorem ten_zpow_le_two_zpow {k j : ℤ} (hlarge : 10 * k ≤ 3 * j) (hsmall : 93 * k ≤ 28 * j) :
    (10 : ℚ) ^ k ≤ 2 ^ j := by
  rcases le_total 0 k with hk | hk
  · refine (zpow_le_zpow_iff_left₀ (by positivity) (by positivity) (show (0 : ℤ) < 3 by decide)).1 ?_
    calc ((10 : ℚ) ^ k) ^ (3 : ℤ) = (10 ^ (3 : ℤ)) ^ k := zpow_comm _ _ _
      _ ≤ (2 ^ (10 : ℤ)) ^ k := zpow_le_zpow_left₀ hk (by positivity) (by norm_num)
      _ = 2 ^ (10 * k) := (zpow_mul _ _ _).symm
      _ ≤ 2 ^ (3 * j) := zpow_le_zpow_right₀ (by norm_num) hlarge
      _ = (2 ^ j) ^ (3 : ℤ) := zpow_mul' _ _ _
  · refine (zpow_le_zpow_iff_left₀ (by positivity) (by positivity) (show (0 : ℤ) < 28 by decide)).1 ?_
    calc ((10 : ℚ) ^ k) ^ (28 : ℤ) = (10 ^ (28 : ℤ)) ^ k := zpow_comm _ _ _
      _ ≤ (2 ^ (93 : ℤ)) ^ k := zpow_le_zpow_of_nonpos (by positivity) (by norm_num) hk
      _ = 2 ^ (93 * k) := (zpow_mul _ _ _).symm
      _ ≤ 2 ^ (28 * j) := zpow_le_zpow_right₀ (by norm_num) hsmall
      _ = (2 ^ j) ^ (28 : ℤ) := zpow_mul' _ _ _

theorem isProper_ofParts {p : Parts} (hpos : 0 < p.mantissa) : (Interval.ofParts p).IsProper := by
  constructor
  · simp only [Interval.ofParts]
    split <;> omega
  · simp only [Interval.ofParts]
    omega

/-- The shortest decimal of a double lies in its interval. -/
theorem holds_shortest {p : Parts} (hp : p.IsCanonical) (hpos : 0 < p.mantissa) (tie : Tie) :
    (Interval.ofParts p).Holds ((shortest tie p).digits * 10 ^ (shortest tie p).exponent) := by
  have hproper := isProper_ofParts hpos
  refine Interval.holds_of_onGrid? hproper (Interval.onGrid?_search ?_)
  refine Interval.isSome_onGrid? hproper tie ?_
  -- the last grid of the search is finer than a quarter of the last bit
  have hlog : p.mantissa.log2 < 53 := (Nat.log2_lt hpos.ne').2 hp.mantissa_lt
  have hlow := hp.le_exponent
  have hhigh := hp.exponent_le
  refine ten_zpow_le_two_zpow ?_ ?_
  · show 10 * ((p.exponent + p.mantissa.log2 + 1) * 30103 / 100000 + 2 - (22 : ℕ)) ≤
      3 * (p.exponent - 2)
    omega
  · show 93 * ((p.exponent + p.mantissa.log2 + 1) * 30103 / 100000 + 2 - (22 : ℕ)) ≤
      28 * (p.exponent - 2)
    omega

/-- The shortest decimal of a double is rounded to it. -/
theorem rounded_shortest {p : Parts} (hp : p.IsCanonical) (hpos : 0 < p.mantissa) (tie : Tie) :
    rounded ((shortest tie p).digits * 10 ^ (shortest tie p).exponent) =
      p.mantissa * 2 ^ p.exponent :=
  rounded_of_holds hp hpos (holds_shortest hp hpos tie)

theorem digits_shortest_pos {p : Parts} (hp : p.IsCanonical) (hpos : 0 < p.mantissa) (tie : Tie) :
    0 < (shortest tie p).digits := by
  refine Nat.pos_of_ne_zero fun hzero => ?_
  have hrounded := rounded_shortest hp hpos tie
  rw [hzero, Nat.cast_zero, zero_mul, rounded_zero] at hrounded
  have hvalue : (0 : ℚ) < p.mantissa * 2 ^ p.exponent := by positivity
  exact hvalue.ne hrounded

end Decimal
end UtmTiles
