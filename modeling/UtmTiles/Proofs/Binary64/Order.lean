import UtmTiles.Proofs.Binary64.Value
import Mathlib.Order.WithBot

/-!
# The order of doubles

The doubles that are numbers, finite or not, are ordered as rational numbers with an infinity at each
end (`lt_iff_place`, `le_iff_place`). A NaN compares with nothing.
-/

namespace UtmTiles
namespace Binary64

open Float.Model (UnpackedFloat)
open Float.Model.UnpackedFloat (Sign)

/-! ## Places -/

/-- Where a number stands among the rational numbers and the infinities. -/
def placeOf : UnpackedFloat → WithBot (WithTop ℚ)
  | .infinity .negative => ⊥
  | .infinity .positive => ((⊤ : WithTop ℚ) : WithBot (WithTop ℚ))
  | u => ((exactValue u : WithTop ℚ) : WithBot (WithTop ℚ))

/-- The place of a double that is a number. -/
def place (x : Float) : WithBot (WithTop ℚ) := placeOf x.toModel.unpack

theorem placeOf_of_isFinite {u : UnpackedFloat} (h : u.isFinite = true) :
    placeOf u = ((exactValue u : WithTop ℚ) : WithBot (WithTop ℚ)) := by
  cases u with
  | infinity => cases h
  | notANumber => cases h
  | zero => rfl
  | finite => rfl

theorem compare_coe (p q : ℚ) :
    compare ((p : WithTop ℚ) : WithBot (WithTop ℚ)) ((q : WithTop ℚ) : WithBot (WithTop ℚ)) =
      compare p q := by
  rcases lt_trichotomy p q with h | rfl | h
  · rw [compare_lt_iff_lt.2 h, compare_lt_iff_lt]
    exact WithBot.coe_lt_coe.2 (WithTop.coe_lt_coe.2 h)
  · rw [compare_eq_iff_eq.2 (Eq.refl p), compare_eq_iff_eq]
  · rw [compare_gt_iff_gt.2 h, compare_gt_iff_gt]
    exact WithBot.coe_lt_coe.2 (WithTop.coe_lt_coe.2 h)

/-- An infinity lies on its side of all finite doubles. -/
theorem compare_infinity {s : Sign} {u : UnpackedFloat} (h : u.isFinite = true) :
    (UnpackedFloat.infinity s).compare u = some (compare (placeOf (.infinity s)) (placeOf u)) ∧
      u.compare (.infinity s) = some (compare (placeOf u) (placeOf (.infinity s))) := by
  rw [placeOf_of_isFinite h]
  cases s with
  | negative =>
    have hlt := WithBot.bot_lt_coe (exactValue u : WithTop ℚ)
    rw [placeOf, compare_lt_iff_lt.2 hlt, compare_gt_iff_gt.2 hlt]
    cases u <;> first | exact ⟨rfl, rfl⟩ | cases h
  | positive =>
    have hlt := WithBot.coe_lt_coe.2 (WithTop.coe_lt_top (exactValue u))
    rw [placeOf, compare_lt_iff_lt.2 hlt, compare_gt_iff_gt.2 hlt]
    cases u <;> first | exact ⟨rfl, rfl⟩ | cases h

theorem compare_infinities (s t : Sign) : (UnpackedFloat.infinity s).compare (.infinity t) =
    some (compare (placeOf (.infinity s)) (placeOf (.infinity t))) := by
  cases s <;> cases t <;> rfl

theorem isFinite_or_infinity {x : Float} (h : x.isNaN = false) :
    x.toModel.unpack.isFinite = true ∨ ∃ s, x.toModel.unpack = .infinity s := by
  change x.toModel.unpack.isNaN = false at h
  cases hx : x.toModel.unpack with
  | infinity s => exact Or.inr ⟨s, rfl⟩
  | notANumber => rw [hx] at h; cases h
  | zero => exact Or.inl rfl
  | finite => exact Or.inl rfl

section Order

variable {x y z : Float}

/-- Numbers compare as their places do. -/
theorem compare_eq_place (hx : x.isNaN = false) (hy : y.isNaN = false) :
    x.toModel.unpack.compare y.toModel.unpack = some (compare (place x) (place y)) := by
  unfold place
  rcases isFinite_or_infinity hx with hx | ⟨s, hs⟩
  · rcases isFinite_or_infinity hy with hy | ⟨t, ht⟩
    · rw [placeOf_of_isFinite hx, placeOf_of_isFinite hy, compare_coe]
      exact compare_eq (isCanonical_of_isFinite hx).1 (isCanonical_of_isFinite hy).1
    · rw [ht]
      exact (compare_infinity hx).2
  · rcases isFinite_or_infinity hy with hy | ⟨t, ht⟩
    · rw [hs]
      exact (compare_infinity hy).1
    · rw [hs, ht, compare_infinities]

theorem lt_iff_place (hx : x.isNaN = false) (hy : y.isNaN = false) :
    x < y ↔ place x < place y := by
  rw [lt_def, compare_eq_place hx hy, Option.some_inj, compare_lt_iff_lt]

theorem le_iff_place (hx : x.isNaN = false) (hy : y.isNaN = false) :
    x ≤ y ↔ place x ≤ place y := by
  rw [le_def, compare_eq_place hx hy, ← compare_le_iff_le]
  exact Ordering.isLE_iff_ne_gt

/-! ## Comparisons -/

theorem compare_notANumber (u : UnpackedFloat) :
    UnpackedFloat.compare .notANumber u = none ∧ u.compare .notANumber = none := by
  cases u <;> exact ⟨rfl, rfl⟩

theorem unpack_of_isNaN (h : x.isNaN = true) : x.toModel.unpack = .notANumber := by
  change x.toModel.unpack.isNaN = true at h
  cases hx : x.toModel.unpack with
  | notANumber => rfl
  | _ => rw [hx] at h; cases h

/-- Only numbers compare. -/
theorem isNaN_of_lt (h : x < y) : x.isNaN = false ∧ y.isNaN = false := by
  rw [lt_def] at h
  constructor
  · refine Bool.eq_false_of_not_eq_true fun hx => ?_
    rw [unpack_of_isNaN hx, (compare_notANumber _).1] at h
    cases h
  · refine Bool.eq_false_of_not_eq_true fun hy => ?_
    rw [unpack_of_isNaN hy, (compare_notANumber _).2] at h
    cases h

theorem not_lt_same (x : Float) : ¬ x < x := by
  intro h
  obtain ⟨hx, -⟩ := isNaN_of_lt h
  exact lt_irrefl _ ((lt_iff_place hx hx).1 h)

/-- Of two numbers, the one that is not below is above or equal. -/
theorem not_lt_iff (hx : x.isNaN = false) (hy : y.isNaN = false) : ¬ x < y ↔ y ≤ x := by
  rw [lt_iff_place hx hy, le_iff_place hy hx, not_lt]

theorem lt_of_lt_of_lt (hxy : x < y) (hyz : y < z) : x < z := by
  obtain ⟨hx, hy⟩ := isNaN_of_lt hxy
  obtain ⟨-, hz⟩ := isNaN_of_lt hyz
  rw [lt_iff_place hx hz]
  exact ((lt_iff_place hx hy).1 hxy).trans ((lt_iff_place hy hz).1 hyz)

theorem lt_of_not_lt_of_lt (hx : x.isNaN = false) (hxy : ¬ y < x) (hyz : y < z) : x < z := by
  obtain ⟨hy, hz⟩ := isNaN_of_lt hyz
  rw [lt_iff_place hy hx, not_lt] at hxy
  rw [lt_iff_place hx hz]
  exact hxy.trans_lt ((lt_iff_place hy hz).1 hyz)

theorem lt_of_lt_of_not_lt (hz : z.isNaN = false) (hxy : x < y) (hyz : ¬ z < y) : x < z := by
  obtain ⟨hx, hy⟩ := isNaN_of_lt hxy
  rw [lt_iff_place hz hy, not_lt] at hyz
  rw [lt_iff_place hx hz]
  exact ((lt_iff_place hx hy).1 hxy).trans_le hyz

end Order

end Binary64
end UtmTiles
