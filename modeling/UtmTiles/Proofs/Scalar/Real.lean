import UtmTiles.Scalar
import Mathlib.Algebra.Order.Floor.Ring
import Mathlib.Analysis.SpecialFunctions.Artanh
import Mathlib.Analysis.SpecialFunctions.Trigonometric.Arctan
import Mathlib.Analysis.SpecialFunctions.Trigonometric.Inverse

/-!
# Real numbers as scalars

With real numbers for scalars, zones, projections, grids and tiles are computed exactly. Every
number is finite, and indices and counts have no bounds.
-/

namespace UtmTiles

open Classical in
noncomputable instance : Scalar ℝ where
  decidableLT := inferInstance
  decidableLE := inferInstance
  ofInt n := n
  isFinite _ := true
  wrap x m := x - m * ⌊x / m⌋
  floorIndex x := ⌊x⌋
  ceilIndex x := ⌈x⌉
  floorCount x := ⌊x⌋₊
  round x := if 0 ≤ x then ⌊x + 1 / 2⌋ else -⌊-x + 1 / 2⌋
  pixels x := ⌊x⌋₊
  turn px py qx qy rx ry := cmp ((px - rx) * (qy - ry)) ((py - ry) * (qx - rx))

noncomputable instance : Elementary ℝ where
  pi := Real.pi
  sqrt := Real.sqrt
  sin := Real.sin
  cos := Real.cos
  sinh := Real.sinh
  cosh := Real.cosh
  asin := Real.arcsin
  atan := Real.arctan
  atanh := Real.artanh

namespace Scalar

@[simp] theorem ofInt_real (n : Int) : (Scalar.ofInt n : ℝ) = n := rfl

@[simp] theorem isFinite_real (x : ℝ) : Scalar.isFinite x = true := rfl

@[simp] theorem floorIndex_real (x : ℝ) : Scalar.floorIndex x = ⌊x⌋ := rfl

@[simp] theorem ceilIndex_real (x : ℝ) : Scalar.ceilIndex x = ⌈x⌉ := rfl

theorem min_real (x y : ℝ) : Scalar.min x y = Min.min x y := by
  rw [Scalar.min, if_pos (le_refl y), min_def]

theorem max_real (x y : ℝ) : Scalar.max x y = Max.max x y := by
  rw [Scalar.max, if_pos (le_refl y), max_comm, max_def]

theorem same_real {x y : ℝ} : Scalar.same x y = true ↔ x = y := by
  rw [same, decide_eq_true_iff, le_antisymm_iff]

theorem isBetween_real {x a b : ℝ} :
    Scalar.isBetween x a b = true ↔ (a ≤ x ∧ x ≤ b) ∨ (b ≤ x ∧ x ≤ a) := by
  unfold isBetween
  split_ifs with h
  · rw [decide_eq_true_iff]
    constructor
    · exact Or.inl
    · rintro (h | h)
      · exact h
      · constructor <;> linarith
  · rw [decide_eq_true_iff]
    constructor
    · exact Or.inr
    · rintro (h | h)
      · constructor <;> linarith
      · exact h

@[simp] theorem round_natCast (n : ℕ) : Scalar.round (n : ℝ) = n := by
  have hfloor : ⌊(n : ℝ) + 1 / 2⌋ = (n : ℤ) := by
    rw [Int.floor_eq_iff]
    push_cast
    constructor <;> linarith
  change (if (0 : ℝ) ≤ n then (⌊(n : ℝ) + 1 / 2⌋ : ℝ) else _) = n
  rw [if_pos n.cast_nonneg, hfloor, Int.cast_natCast]

@[simp] theorem pixels_natCast (n : ℕ) : Scalar.pixels (n : ℝ) = n := Nat.floor_natCast n

/-- Wrapping leaves numbers alone that need no wrapping. -/
theorem wrap_eq_self {x m : ℝ} (hx : 0 ≤ x) (hlt : x < m) : Scalar.wrap x m = x := by
  have hfloor : ⌊x / m⌋ = 0 :=
    Int.floor_eq_zero_iff.2 ⟨div_nonneg hx (hx.trans hlt.le), (div_lt_one (hx.trans_lt hlt)).2 hlt⟩
  change x - m * ⌊x / m⌋ = x
  rw [hfloor, Int.cast_zero, mul_zero, sub_zero]

end Scalar
end UtmTiles
