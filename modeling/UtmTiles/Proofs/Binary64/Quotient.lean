import UtmTiles.Proofs.Binary64.Errors

/-!
# Indices of offsets

An offset has the index that comes from its quotient by a step: the quotient is rounded to a double,
the double is rounded down or up to a whole number, and the whole number becomes the nearest index
(`index_div`). Where there is such an index, it is that of the exact quotient, unless the quotient is
so near to a whole number that it is rounded to it. `IsIndexOf` says which quotients have no index, and
`hasIndex_div` says all this for doubles.
-/

namespace UtmTiles
namespace Binary64

open Float.Model (UnpackedFloat)
open Float.Model.UnpackedFloat (Sign)

/-! ## Rounding down and up -/

theorem Parts.ceil_eq (p : Parts) : p.ceil = ⌈p.value⌉ := by
  -- rounding up is rounding down on the other side of zero
  have hsigned : signed { p with negative := !p.negative } = -p.signed := by
    cases h : p.negative <;> simp [signed, h]
  have hceil : p.ceil = -floor { p with negative := !p.negative } := by
    simp only [ceil, floor, scaledTo, hsigned, Int.neg_mul]
  have hvalue : value { p with negative := !p.negative } = -p.value := by
    rw [value, hsigned, Int.cast_neg, neg_mul, value]
  rw [hceil, floor_eq, hvalue, Int.floor_neg, neg_neg]

/-- The whole number is that below, or it is that above. -/
def IsDirected (round : ℚ → ℤ) : Prop := round = Int.floor ∨ round = Int.ceil

namespace IsDirected

variable {round : ℚ → ℤ} {q z : ℚ} {n : ℤ}

theorem intCast (h : IsDirected round) (n : ℤ) : round n = n := by
  rcases h with rfl | rfl
  · exact Int.floor_intCast n
  · exact Int.ceil_intCast n

theorem mono (h : IsDirected round) (hqz : q ≤ z) : round q ≤ round z := by
  rcases h with rfl | rfl
  · exact Int.floor_le_floor hqz
  · exact Int.ceil_le_ceil hqz

theorem le_of_le (h : IsDirected round) (hn : n ≤ q) : n ≤ round q :=
  (h.intCast n).ge.trans (h.mono hn)

theorem ge_of_ge (h : IsDirected round) (hn : q ≤ n) : round q ≤ n :=
  (h.mono hn).trans (h.intCast n).le

/-- Between two neighboring whole numbers all numbers become the same. -/
theorem eq_of_between (h : IsDirected round) (hlow : ⌊q⌋ < z) (hhigh : z < ⌈q⌉) :
    round z = round q := by
  have hnext : (⌈q⌉ : ℚ) ≤ ⌊q⌋ + 1 := by exact_mod_cast Int.ceil_le_floor_add_one q
  have hlast : (⌈q⌉ : ℚ) - 1 ≤ ⌊q⌋ := by linarith
  rcases h with rfl | rfl
  · rw [Int.floor_eq_iff]
    exact ⟨hlow.le, by linarith⟩
  · rw [Int.ceil_eq_iff]
    exact ⟨by linarith, hhigh.le⟩

end IsDirected

/-! ## Rounding twice -/

theorem exists_intCast_eq_mul_zpow (n : ℤ) {e : ℤ} (he : 0 ≤ e) : ∃ m : ℤ, (n : ℚ) * 2 ^ e = m := by
  obtain ⟨k, rfl⟩ := Int.eq_ofNat_of_zero_le he
  refine ⟨n * 2 ^ k, ?_⟩
  push_cast
  rw [zpow_natCast]

/-- A number is rounded to a whole number, or it stays between its neighbors. -/
theorem rounded_whole_or_between (q : ℚ) :
    (∃ n : ℤ, rounded q = n) ∨ ((⌊q⌋ : ℚ) < rounded q ∧ rounded q < ⌈q⌉) := by
  have hpos : ∀ {p : ℚ}, 0 < p →
      (∃ n : ℤ, rounded p = n) ∨ ((⌊p⌋ : ℚ) < rounded p ∧ rounded p < ⌈p⌉) := by
    intro p hp
    rcases le_or_gt 0 (unitExponent p) with hexponent | hexponent
    · rw [rounded_of_pos hp]
      exact Or.inl (exists_intCast_eq_mul_zpow _ hexponent)
    · -- the neighbors are small enough to be doubles themselves
      have hsmall : p ≤ (2 ^ 52 : ℤ) := by
        refine (lt_of_unitExponent p).le.trans ?_
        rw [Int.cast_pow, ← zpow_natCast]
        exact zpow_le_zpow_right₀ (by norm_num) (by omega)
      have hceil : ⌈p⌉ ≤ 2 ^ 52 := Int.ceil_le.2 hsmall
      have hfloor : 0 ≤ ⌊p⌋ := Int.floor_nonneg.2 hp.le
      have horder := Int.floor_le_ceil p
      have hlow := rounded_mono (Int.floor_le p)
      have hhigh := rounded_mono (Int.le_ceil p)
      rw [rounded_intCast (by rw [abs_of_nonneg hfloor]; omega)] at hlow
      rw [rounded_intCast (by rw [abs_of_nonneg (hfloor.trans horder)]; omega)] at hhigh
      rcases hlow.eq_or_lt with heq | hlow
      · exact Or.inl ⟨_, heq.symm⟩
      · rcases hhigh.eq_or_lt with heq | hhigh
        · exact Or.inl ⟨_, heq⟩
        · exact Or.inr ⟨hlow, hhigh⟩
  rcases lt_trichotomy q 0 with hneg | rfl | hq
  · have hmirror := hpos (neg_pos.2 hneg)
    rw [rounded_neg, Int.floor_neg, Int.ceil_neg, Int.cast_neg, Int.cast_neg, neg_lt_neg_iff,
      neg_lt_neg_iff] at hmirror
    rcases hmirror with ⟨n, hn⟩ | hbetween
    · exact Or.inl ⟨-n, by rw [Int.cast_neg, ← hn, neg_neg]⟩
    · exact Or.inr hbetween.symm
  · exact Or.inl ⟨0, by rw [rounded_zero, Int.cast_zero]⟩
  · exact hpos hq

/-- Rounding to a double first makes a difference only for numbers that it makes whole. -/
theorem IsDirected.round_rounded {round : ℚ → ℤ} (h : IsDirected round) (q : ℚ) :
    round (rounded q) = round q ∨ (round (rounded q) : ℚ) = rounded q := by
  rcases rounded_whole_or_between q with ⟨n, hn⟩ | ⟨hlow, hhigh⟩
  · right
    rw [hn, h.intCast]
  · left
    exact h.eq_of_between hlow hhigh

/-! ## Numbers without an index -/

/-- A number that is nearer to a double than to a smaller number is not rounded to the smaller one. -/
theorem lt_rounded_of_nearer {q low : ℚ} {m e : ℤ} (hm : |m| < 2 ^ 53) (he : -1074 ≤ e)
    (hlow : low < m * 2 ^ e) (hnear : low + m * 2 ^ e < 2 * q) : low < rounded q := by
  have hdist := rounded_dist_le q hm he
  by_contra hle
  rw [abs_of_pos (by linarith : 0 < q - rounded q)] at hdist
  rcases abs_cases (q - m * 2 ^ e) with ⟨habs, -⟩ | ⟨habs, -⟩ <;> linarith

theorem rounded_lt_of_nearer {q high : ℚ} {m e : ℤ} (hm : |m| < 2 ^ 53) (he : -1074 ≤ e)
    (hhigh : m * 2 ^ e < high) (hnear : 2 * q < high + m * 2 ^ e) : rounded q < high := by
  have hmirror : -high < rounded (-q) :=
    lt_rounded_of_nearer (m := -m) (by rwa [abs_neg]) he (by push_cast; linarith)
      (by push_cast; linarith)
  rw [rounded_neg] at hmirror
  exact neg_lt_neg_iff.1 hmirror

theorem rounded_two_pow_63 : rounded (2 ^ 63 + 2 ^ 10) = 2 ^ 63 ∧ rounded (2 ^ 63 - 2 ^ 9) = 2 ^ 63 := by
  constructor
  · -- half a unit above the power, whose last bit is 0
    refine (rounded_of_near (m := 2 ^ 52) (e := 11) ?_ ?_ ?_ ?_ ?_ ?_).trans ?_ <;> norm_num
  · refine (rounded_of_near (m := 2 ^ 53) (e := 10) ?_ ?_ ?_ ?_ ?_ ?_).trans ?_ <;> norm_num

/-- The index of a quotient, and which quotients have none. -/
structure IsIndexOf (round : ℚ → ℤ) (q : ℚ) (i : ℤ) : Prop where
  inside : -(2 ^ 63 + 2 ^ 10) ≤ q → q < 2 ^ 63 - 2 ^ 9 →
    i = round (rounded q) ∧ (i = round q ∨ (i : ℚ) = rounded q)
  below : q < -(2 ^ 63 + 2 ^ 10) → round (rounded q) < i ∧ i = minIndex
  above : 2 ^ 63 - 2 ^ 9 ≤ q → i < round (rounded q) ∧ i = maxIndex

theorem clampIndex_of_le {n : ℤ} (h : n ≤ minIndex) : clampIndex n = minIndex := by
  unfold clampIndex maxIndex at *
  unfold minIndex at *
  grind

theorem clampIndex_of_ge {n : ℤ} (h : maxIndex ≤ n) : clampIndex n = maxIndex := by
  unfold clampIndex minIndex at *
  unfold maxIndex at *
  grind

/-- Rounding keeps strict bounds by whole numbers. -/
theorem IsDirected.round_rounded_lt {round : ℚ → ℤ} (h : IsDirected round) {q p : ℚ} {n : ℤ}
    (hrounded : rounded q < n) (hqp : q ≤ p) (hp : round p < n) : round (rounded q) < n := by
  rcases h.round_rounded q with heq | heq
  · rw [heq]
    exact (h.mono hqp).trans_lt hp
  · rw [← heq] at hrounded
    exact_mod_cast hrounded

theorem isIndexOf_clampIndex {round : ℚ → ℤ} (h : IsDirected round) (q : ℚ) :
    IsIndexOf round q (clampIndex (round (rounded q))) := by
  obtain ⟨hbelow, habove⟩ := rounded_two_pow_63
  refine ⟨fun hlow hhigh => ?_, fun hlow => ?_, fun hhigh => ?_⟩
  · have hmin : minIndex ≤ round (rounded q) := by
      refine h.le_of_le ?_
      have hle := rounded_mono hlow
      rw [rounded_neg, hbelow] at hle
      rw [minIndex]
      push_cast
      linarith
    have hmax : round (rounded q) < maxIndex + 1 := by
      rw [maxIndex]
      refine h.round_rounded_lt ?_ hhigh.le ?_
      · exact rounded_lt_of_nearer (m := 2 ^ 53 - 1) (e := 10) (by norm_num) (by norm_num)
          (by norm_num) (by norm_num; linarith)
      · exact (h.ge_of_ge (n := 2 ^ 63 - 2 ^ 9) (by norm_num)).trans_lt (by norm_num)
    rw [clampIndex_eq hmin (by omega)]
    exact ⟨rfl, h.round_rounded q⟩
  · have hlt : round (rounded q) < minIndex := by
      rw [minIndex]
      refine h.round_rounded_lt ?_ hlow.le ?_
      · exact rounded_lt_of_nearer (m := -(2 ^ 52 + 1)) (e := 11) (by norm_num) (by norm_num)
          (by norm_num) (by norm_num; linarith)
      · exact (h.ge_of_ge (n := -(2 ^ 63 + 2 ^ 10)) (by norm_num)).trans_lt (by norm_num)
    rw [clampIndex_of_le hlt.le]
    exact ⟨hlt, rfl⟩
  · have hgt : maxIndex < round (rounded q) := by
      refine Int.lt_of_add_one_le (h.le_of_le ?_)
      have hle := rounded_mono hhigh
      rw [habove] at hle
      rw [maxIndex]
      push_cast
      linarith
    rw [clampIndex_of_ge hgt.le]
    exact ⟨hgt, rfl⟩

/-- Quotients that are not too large have an index of their size. -/
theorem IsIndexOf.bounds {round : ℚ → ℤ} (h : IsDirected round) {q : ℚ} {i : ℤ}
    (hi : IsIndexOf round q i) (hq : |q| ≤ 2 ^ 61) : -2 ^ 61 ≤ i ∧ i ≤ 2 ^ 61 := by
  obtain ⟨hlow, hhigh⟩ := abs_le.1 hq
  have hpower : rounded (2 ^ 61) = 2 ^ 61 :=
    rounded_of_eq (m := 1) (e := 61) (by norm_num) (by norm_num) (by norm_num)
  have hleast := rounded_mono hlow
  have hmost := rounded_mono hhigh
  rw [rounded_neg, hpower] at hleast
  rw [hpower] at hmost
  obtain ⟨rfl, -⟩ := hi.inside (by linarith) (by linarith)
  exact ⟨h.le_of_le (by push_cast; exact hleast), h.ge_of_ge (by push_cast; exact hmost)⟩

/-! ## Indices of doubles -/

section Doubles

variable {whole : Parts → ℤ} {round : ℚ → ℤ}

/-- The index at the negative or at the positive end. -/
def endIndex : Sign → ℤ
  | .negative => minIndex
  | .positive => maxIndex

theorem infinity_cases {x : Float} {s : Sign} (hx : x.toModel.unpack = .infinity s) :
    parts? x = none ∧ x.isNaN = false ∧ (x < 0.0 ↔ s = .negative) := by
  refine ⟨parts?_eq_none ?_, ?_, ?_⟩
  · change x.toModel.unpack.isFinite = false
    rw [hx]
    rfl
  · change x.toModel.unpack.isNaN = false
    rw [hx]
    rfl
  · rw [lt_def, hx]
    cases s with
    | negative => exact ⟨fun _ => rfl, fun _ => rfl⟩
    | positive => exact iff_of_false (fun h => by cases h) fun h => by cases h

theorem index_infinity {x : Float} {s : Sign} (hx : x.toModel.unpack = .infinity s) :
    index whole x = endIndex s := by
  obtain ⟨hparts, hnan, hlt⟩ := infinity_cases hx
  simp only [index, hparts, hnan, Bool.false_eq_true, if_false]
  cases s with
  | negative => rw [if_pos (hlt.2 rfl), endIndex]
  | positive =>
    have hnot : ¬ x < 0.0 := fun h => by cases hlt.1 h
    rw [if_neg hnot, endIndex]

/-- The index of a result is that of the exact result, rounded to a double. -/
theorem index_pack (h : IsDirected round) (hwhole : ∀ p : Parts, whole p = round p.value)
    {u : UnpackedFloat} {q : ℚ} (hu : IsNearest u q) :
    index whole (.ofModel (.pack u)) = clampIndex (round (rounded q)) := by
  rcases lt_or_ge |rounded q| (2 ^ 1024) with hsmall | hlarge
  · have hrounded := isRounded_ofModel_pack hu hsmall
    obtain ⟨p, hp, hvalue⟩ := parts?_eq hrounded.isFinite
    rw [index, hp, ← hrounded.value, ← hvalue]
    exact congrArg clampIndex (hwhole p)
  · rw [← hu.value] at hlarge ⊢
    obtain ⟨s, r, hs, hvalue, hr⟩ := unpack_pack_of_large hu.isCanonical hlarge
    have hindex : index whole (.ofModel (.pack u)) = endIndex s := index_infinity hs
    have hpower : (2 : ℚ) ^ 63 ≤ 2 ^ 1024 := pow_le_pow_right₀ (by norm_num) (by norm_num)
    replace hpower := hpower.trans hr
    rw [hindex, hvalue]
    cases s with
    | negative =>
      refine (clampIndex_of_le (h.ge_of_ge ?_)).symm
      rw [signed, minIndex]
      push_cast
      linarith only [hpower]
    | positive =>
      refine (clampIndex_of_ge (h.le_of_le ?_)).symm
      rw [signed, maxIndex]
      push_cast
      linarith only [hpower]

theorem index_div (h : IsDirected round) (hwhole : ∀ p : Parts, whole p = round p.value)
    {x y : Float} (hx : x.isFinite = true) (hy : y.isFinite = true) (hne : value y ≠ 0) :
    index whole (x / y) = clampIndex (round (rounded (value x / value y))) :=
  index_pack h hwhole
    (isNearest_div (isCanonical_of_isFinite hx).1 (isCanonical_of_isFinite hy).1 hne)

/-- The index that an offset has in steps. -/
structure HasIndex (round : ℚ → ℤ) (offset step : Float) (i : ℤ) : Prop where
  isIndexOf : offset.isFinite = true → step.isFinite = true →
    IsIndexOf round (value offset / value step) i
  isInf : step.isInf = true → i = 0

theorem hasIndex_div (h : IsDirected round) (hwhole : ∀ p : Parts, whole p = round p.value)
    {step : Float} (hstep : step.isFinite = true → 0 < value step) (offset : Float) :
    HasIndex round offset step (index whole (offset / step)) := by
  constructor
  · intro hoffset hfinite
    rw [index_div h hwhole hoffset hfinite (hstep hfinite).ne']
    exact isIndexOf_clampIndex h _
  · intro hinf
    refine index_div_of_isInf (fun negative => ?_) offset hinf
    have hzero : Parts.value ⟨negative, 0, -1074⟩ = ((0 : ℤ) : ℚ) := by
      cases negative <;> simp [Parts.value, Parts.signed]
    rw [hwhole, hzero, h.intCast]

end Doubles

end Binary64
end UtmTiles
