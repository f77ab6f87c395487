import Mathlib.Tactic.Linarith
import Mathlib.Tactic.NormNum.OfScientific
import Mathlib.Tactic.Ring
import UtmTiles.Proofs.Scalar.Real
import UtmTiles.Utm.Footprint

/-!
# Positions and turns

Positions in the world have longitudes from -180 to 180. A position that is moved by whole turns
(`Utm.turnedBy`) has other longitudes, which may lie outside of the world.
-/

namespace UtmTiles
namespace Utm

variable {p : Point ℝ}

theorem turn_real : (turn : ℝ) = 360 := by norm_num [turn]

theorem world_real : (world : Box ℝ) = ⟨-180, -90, 180, 90⟩ := by
  norm_num [world, Zone.maxLon, Zone.maxLat]

theorem world_contains_iff :
    (world : Box ℝ).Contains p ↔ (-180 ≤ p.x ∧ p.x ≤ 180) ∧ (-90 ≤ p.y ∧ p.y ≤ 90) := by
  rw [world_real, Box.Contains, and_assoc]

/-- The position some turns further east. -/
noncomputable def turnedBy (turns : ℤ) (p : Point ℝ) : Point ℝ := ⟨p.x + turn * turns, p.y⟩

theorem turnedBy_x (turns : ℤ) (p : Point ℝ) : (turnedBy turns p).x = p.x + 360 * turns := by
  rw [turnedBy, turn_real]

theorem turnedBy_turnedBy (m n : ℤ) (p : Point ℝ) :
    turnedBy m (turnedBy n p) = turnedBy (n + m) p := by
  simp only [turnedBy, Int.cast_add, mul_add, add_assoc]

theorem eastOf_eq (p : Point ℝ) : eastOf p = turnedBy 1 p := by
  rw [eastOf, turnedBy, Int.cast_one, mul_one]

theorem westOf_eq (p : Point ℝ) : westOf p = turnedBy (-1) p := by
  rw [westOf, turnedBy, Int.cast_neg, Int.cast_one, mul_neg_one, sub_eq_add_neg]

/-! ## Wrapping -/

/-- The turns by which a longitude is moved east to be wrapped into the world. -/
noncomputable def wrappingTurns (lon : ℝ) : ℤ := -⌊(lon + Zone.maxLon) / turn⌋

theorem wrappingTurns_real (lon : ℝ) : wrappingTurns lon = -⌊(lon + 180) / 360⌋ := by
  norm_num [wrappingTurns, Zone.maxLon, turn]

theorem wrappingTurns_pos_iff {lon : ℝ} : 0 < wrappingTurns lon ↔ lon < -180 := by
  rw [wrappingTurns_real, neg_pos, Int.floor_lt, Int.cast_zero, div_lt_iff₀ (by norm_num), zero_mul]
  constructor <;> intro h <;> linarith

noncomputable def wrapped (p : Point ℝ) : Point ℝ := turnedBy (wrappingTurns p.x) p

theorem wrapped_bounds (p : Point ℝ) : -180 ≤ (wrapped p).x ∧ (wrapped p).x < 180 := by
  have hfloor := Int.floor_le ((p.x + 180) / 360)
  have hnext := Int.lt_floor_add_one ((p.x + 180) / 360)
  rw [wrapped, turnedBy_x, wrappingTurns_real, Int.cast_neg]
  constructor <;> linarith

end Utm
end UtmTiles
