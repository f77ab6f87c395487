import Mathlib.Tactic.Linarith
import Mathlib.Tactic.Ring
import UtmTiles.Plane.Meeting
import UtmTiles.Proofs.Scalar.Real

/-!
# Turns around points

A ring's turns around a point are counted edge by edge. Edges that stay on one side of the point's
meridian count as far as they rise over the point if they are to the east, and for nothing if they are
to the west. An edge across the meridian counts by the side it leaves the point to. So for a path that
never leads back to the west, only the edge that crosses the meridian and the height of the path's end
matter (`turns_of_crossing`), whichever way the path is taken. All of this is about real coordinates.
-/

namespace UtmTiles

/-! ## Edges -/

section Edges

variable {p a b : Point ℝ}

theorem Point.turn_real (a b p : Point ℝ) :
    a.turn b p = cmp ((a.x - p.x) * (b.y - p.y)) ((a.y - p.y) * (b.x - p.x)) := rfl

theorem Point.turn_eq_gt_iff :
    a.turn b p = .gt ↔ (a.y - p.y) * (b.x - p.x) < (a.x - p.x) * (b.y - p.y) := by
  rw [turn_real, cmp_eq_gt_iff]

theorem Point.turn_eq_lt_iff :
    a.turn b p = .lt ↔ (a.x - p.x) * (b.y - p.y) < (a.y - p.y) * (b.x - p.x) := by
  rw [turn_real, cmp_eq_lt_iff]

theorem Point.turn_eq_eq_iff :
    a.turn b p = .eq ↔ (a.x - p.x) * (b.y - p.y) = (a.y - p.y) * (b.x - p.x) := by
  rw [turn_real, cmp_eq_eq_iff]

theorem Point.turn_swap : b.turn a p = (a.turn b p).swap := by
  rw [turn_real, turn_real]
  rw [mul_comm (b.x - p.x), mul_comm (b.y - p.y), cmp_swap]

/-! ### Which way edges turn -/

/-- An upward edge to the west does not leave the point to its left. -/
theorem turn_ne_gt_of_west (ha : a.x ≤ p.x) (hb : b.x ≤ p.x) (hlow : a.y ≤ p.y)
    (hhigh : p.y ≤ b.y) : a.turn b p ≠ .gt := by
  rw [Ne, Point.turn_eq_gt_iff, not_lt]
  calc (a.x - p.x) * (b.y - p.y) ≤ 0 :=
        mul_nonpos_of_nonpos_of_nonneg (sub_nonpos.2 ha) (sub_nonneg.2 hhigh)
    _ ≤ (a.y - p.y) * (b.x - p.x) :=
        mul_nonneg_of_nonpos_of_nonpos (sub_nonpos.2 hlow) (sub_nonpos.2 hb)

/-- An upward edge to the east has the point to its left. -/
theorem turn_eq_gt_of_east (ha : p.x < a.x) (hb : p.x < b.x) (hlow : a.y ≤ p.y)
    (hhigh : p.y < b.y) : a.turn b p = .gt := by
  rw [Point.turn_eq_gt_iff]
  calc (a.y - p.y) * (b.x - p.x) ≤ 0 :=
        mul_nonpos_of_nonpos_of_nonneg (sub_nonpos.2 hlow) (sub_nonneg.2 hb.le)
    _ < (a.x - p.x) * (b.y - p.y) := mul_pos (sub_pos.2 ha) (sub_pos.2 hhigh)

/-- An eastward edge over a point has the point to its right. -/
theorem turn_eq_lt_of_over (ha : a.x ≤ p.x) (hb : p.x < b.x) (hya : p.y < a.y) (hyb : p.y ≤ b.y) :
    a.turn b p = .lt := by
  rw [Point.turn_eq_lt_iff]
  calc (a.x - p.x) * (b.y - p.y) ≤ 0 :=
        mul_nonpos_of_nonpos_of_nonneg (sub_nonpos.2 ha) (sub_nonneg.2 hyb)
    _ < (a.y - p.y) * (b.x - p.x) := mul_pos (sub_pos.2 hya) (sub_pos.2 hb)

/-- An eastward edge under a point has the point to its left. -/
theorem turn_eq_gt_of_under (ha : a.x ≤ p.x) (hb : p.x < b.x) (hya : a.y < p.y) (hyb : b.y ≤ p.y) :
    a.turn b p = .gt := by
  rw [Point.turn_eq_gt_iff]
  calc (a.y - p.y) * (b.x - p.x) < 0 := mul_neg_of_neg_of_pos (sub_neg.2 hya) (sub_pos.2 hb)
    _ ≤ (a.x - p.x) * (b.y - p.y) :=
        mul_nonneg_of_nonpos_of_nonpos (sub_nonpos.2 ha) (sub_nonpos.2 hyb)

/-- An eastward edge that does not rise over a point does not leave it to its right. -/
theorem turn_ne_lt_of_le (ha : a.x ≤ p.x) (hb : p.x < b.x) (hya : a.y ≤ p.y) (hyb : b.y ≤ p.y) :
    a.turn b p ≠ .lt := by
  rw [Ne, Point.turn_eq_lt_iff, not_lt]
  calc (a.y - p.y) * (b.x - p.x) ≤ 0 :=
        mul_nonpos_of_nonpos_of_nonneg (sub_nonpos.2 hya) (sub_nonneg.2 hb.le)
    _ ≤ (a.x - p.x) * (b.y - p.y) :=
        mul_nonneg_of_nonpos_of_nonpos (sub_nonpos.2 ha) (sub_nonpos.2 hyb)

/-! ### Heights -/

/-- The height at which the line through two points passes a meridian. -/
noncomputable def heightAt (a b : Point ℝ) (x : ℝ) : ℝ :=
  (a.y * (b.x - x) + b.y * (x - a.x)) / (b.x - a.x)

/-- A point is to the right of an eastward edge if it lies lower. -/
theorem turn_eq_cmp_heightAt (hab : a.x < b.x) : a.turn b p = cmp p.y (heightAt a b p.x) := by
  have hwidth : 0 < b.x - a.x := sub_pos.2 hab
  have hheight : heightAt a b p.x * (b.x - a.x) = a.y * (b.x - p.x) + b.y * (p.x - a.x) :=
    div_mul_cancel₀ _ hwidth.ne'
  have hdifference : (a.x - p.x) * (b.y - p.y) - (a.y - p.y) * (b.x - p.x) =
      p.y * (b.x - a.x) - heightAt a b p.x * (b.x - a.x) := by
    rw [hheight]
    ring
  rw [Point.turn_real, ← cmp_sub_zero, hdifference, cmp_sub_zero, cmp_mul_pos_right hwidth]

theorem heightAt_bounds {x low high : ℝ} (ha : a.x ≤ x) (hb : x < b.x)
    (hya : low ≤ a.y ∧ a.y ≤ high) (hyb : low ≤ b.y ∧ b.y ≤ high) :
    low ≤ heightAt a b x ∧ heightAt a b x ≤ high := by
  have hwest : 0 ≤ x - a.x := sub_nonneg.2 ha
  have heast : 0 < b.x - x := sub_pos.2 hb
  have hwidth : 0 < b.x - a.x := by linarith
  rw [heightAt, le_div_iff₀ hwidth, div_le_iff₀ hwidth]
  constructor
  · calc low * (b.x - a.x) = low * (b.x - x) + low * (x - a.x) := by ring
      _ ≤ a.y * (b.x - x) + b.y * (x - a.x) := by
        gcongr
        · exact hya.1
        · exact hyb.1
  · calc a.y * (b.x - x) + b.y * (x - a.x) ≤ high * (b.x - x) + high * (x - a.x) := by
          gcongr
          · exact hya.2
          · exact hyb.2
      _ = high * (b.x - a.x) := by ring

/-- The points of an eastward edge are those at its height. -/
theorem holds_iff_eq_heightAt {x y : ℝ} (ha : a.x ≤ x) (hb : x < b.x) :
    Segment.holds (a, b) ⟨x, y⟩ = true ↔ y = heightAt a b x := by
  have hturn : a.turn b ⟨x, y⟩ = cmp y (heightAt a b x) := turn_eq_cmp_heightAt (ha.trans_lt hb)
  simp only [Segment.holds, Point.inSpan, Bool.and_eq_true, Scalar.isBetween_real, beq_iff_eq]
  rw [hturn, cmp_eq_eq_iff, and_iff_left_iff_imp]
  rintro rfl
  refine ⟨Or.inl ⟨ha, hb.le⟩, ?_⟩
  rcases le_total a.y b.y with hy | hy
  · exact Or.inl (heightAt_bounds ha hb ⟨le_rfl, hy⟩ ⟨hy, le_rfl⟩)
  · exact Or.inr (heightAt_bounds ha hb ⟨hy, le_rfl⟩ ⟨le_rfl, hy⟩)

theorem between_of_holds (h : Segment.holds (a, b) p = true) :
    ((a.x ≤ p.x ∧ p.x ≤ b.x) ∨ (b.x ≤ p.x ∧ p.x ≤ a.x)) ∧
      ((a.y ≤ p.y ∧ p.y ≤ b.y) ∨ (b.y ≤ p.y ∧ p.y ≤ a.y)) := by
  simp only [Segment.holds, Point.inSpan, Bool.and_eq_true, Scalar.isBetween_real] at h
  exact h.2

theorem holds_swap (h : Segment.holds (a, b) p = true) : Segment.holds (b, a) p = true := by
  simp only [Segment.holds, Point.inSpan, Bool.and_eq_true, Scalar.isBetween_real, beq_iff_eq] at h ⊢
  obtain ⟨hturn, hx, hy⟩ := h
  rw [Point.turn_swap, hturn]
  exact ⟨rfl, hx.symm, hy.symm⟩

theorem holds_right (a b : Point ℝ) : Segment.holds (a, b) b = true := by
  have hturn : a.turn b b = .eq := by
    rw [Point.turn_eq_eq_iff, sub_self, sub_self, mul_zero, mul_zero]
  simp only [Segment.holds, Point.inSpan, Bool.and_eq_true, Scalar.isBetween_real, hturn,
    beq_self_eq_true, true_and, le_refl, and_true]
  exact ⟨le_total _ _, le_total _ _⟩

/-! ### What edges add -/

/-- Counts a point that lies higher than another. -/
noncomputable def higher (p v : Point ℝ) : ℤ := if p.y < v.y then 1 else 0

/-- Counts an edge that leads to the east above a point. -/
noncomputable def overCount (p a b : Point ℝ) : ℤ := if a.turn b p = .lt then 1 else 0

/-- An edge with the point to its left counts if it leads upwards. -/
theorem windingStep?_gt (h : a.turn b p = .gt) :
    windingStep? p a b = some (max (higher p b - higher p a) 0) := by
  unfold windingStep? higher
  simp only [h, Scalar.same_real]
  split_ifs <;> first | rfl | grind

/-- An edge with the point to its right counts if it leads downwards. -/
theorem windingStep?_lt (h : a.turn b p = .lt) :
    windingStep? p a b = some (min (higher p b - higher p a) 0) := by
  unfold windingStep? higher
  simp only [h]
  split_ifs <;> first | rfl | grind

/-- An edge on a line with the point counts for nothing, unless it holds the point. -/
theorem windingStep?_eq (h : a.turn b p = .eq) :
    windingStep? p a b =
      if Scalar.isBetween p.x a.x b.x ∧ ((a.y ≤ p.y ∧ p.y ≤ b.y) ∨ (p.y < a.y ∧ b.y ≤ p.y)) then none
      else some 0 := by
  unfold windingStep?
  simp only [h]
  split_ifs <;> grind

/-- An edge that leads straight up through a point holds it. -/
theorem windingStep?_upward (ha : a.x = p.x) (hb : b.x = p.x) (hya : a.y ≤ p.y) (hyb : p.y ≤ b.y) :
    windingStep? p a b = none := by
  have hturn : a.turn b p = .eq := by
    rw [Point.turn_eq_eq_iff, ha, hb, sub_self, zero_mul, mul_zero]
  rw [windingStep?_eq hturn, if_pos]
  exact ⟨Scalar.isBetween_real.2 (Or.inl ⟨ha.le, hb.ge⟩), Or.inl ⟨hya, hyb⟩⟩

theorem higher_cases (p v : Point ℝ) :
    (higher p v = 1 ∧ p.y < v.y) ∨ (higher p v = 0 ∧ v.y ≤ p.y) := by
  unfold higher
  split_ifs with h
  · exact Or.inl ⟨rfl, h⟩
  · exact Or.inr ⟨rfl, not_lt.1 h⟩

/-- From one point to another, an edge rises over a point, falls below it, or does neither. -/
theorem higher_sub_cases (p a b : Point ℝ) :
    (higher p b - higher p a = 1 ∧ a.y ≤ p.y ∧ p.y < b.y) ∨
      (higher p b - higher p a = -1 ∧ p.y < a.y ∧ b.y ≤ p.y) ∨ higher p b - higher p a = 0 := by
  rcases higher_cases p a with ⟨ha, hya⟩ | ⟨ha, hya⟩ <;>
    rcases higher_cases p b with ⟨hb, hyb⟩ | ⟨hb, hyb⟩ <;> simp [ha, hb, hya, hyb]

/-- An edge to the west of a point makes no turn around it. -/
theorem windingStep?_west (ha : a.x ≤ p.x) (hb : b.x ≤ p.x) :
    windingStep? p a b = none ∨ windingStep? p a b = some 0 := by
  cases hturn : a.turn b p with
  | eq =>
    rw [windingStep?_eq hturn]
    split_ifs
    · exact Or.inl rfl
    · exact Or.inr rfl
  | gt =>
    rw [windingStep?_gt hturn]
    rcases higher_sub_cases p a b with ⟨-, hya, hyb⟩ | ⟨hfall, -, -⟩ | hlevel
    · exact absurd hturn (turn_ne_gt_of_west ha hb hya hyb.le)
    · exact Or.inr (by rw [hfall]; rfl)
    · exact Or.inr (by rw [hlevel]; rfl)
  | lt =>
    rw [windingStep?_lt hturn]
    rcases higher_sub_cases p a b with ⟨hrise, -, -⟩ | ⟨-, hya, hyb⟩ | hlevel
    · exact Or.inr (by rw [hrise]; rfl)
    · have hback := turn_ne_gt_of_west hb ha hyb hya.le
      rw [Point.turn_swap, hturn] at hback
      exact absurd rfl hback
    · exact Or.inr (by rw [hlevel]; rfl)

/-- An edge to the east of a point turns around it as far as it rises over the point. -/
theorem windingStep?_east (ha : p.x < a.x) (hb : p.x < b.x) :
    windingStep? p a b = some (higher p b - higher p a) := by
  rcases higher_sub_cases p a b with ⟨hrise, hya, hyb⟩ | ⟨hfall, hya, hyb⟩ | hlevel
  · rw [windingStep?_gt (turn_eq_gt_of_east ha hb hya hyb), hrise]
    rfl
  · have hback := turn_eq_gt_of_east hb ha hyb hya
    rw [Point.turn_swap, Ordering.swap_eq_gt] at hback
    rw [windingStep?_lt hback, hfall]
    rfl
  · cases hturn : a.turn b p with
    | eq =>
      have hout : ¬ Scalar.isBetween p.x a.x b.x = true := by
        rw [Scalar.isBetween_real]
        rintro (h | h) <;> linarith [h.1, h.2]
      rw [windingStep?_eq hturn, if_neg fun h => hout h.1, hlevel]
    | gt => rw [windingStep?_gt hturn, hlevel, max_self]
    | lt => rw [windingStep?_lt hturn, hlevel, min_self]

/-- An eastward edge is over the points that lie lower. -/
theorem overCount_eq (hab : a.x < b.x) :
    overCount p a b = if p.y < heightAt a b p.x then 1 else 0 := by
  rw [overCount, turn_eq_cmp_heightAt hab]
  exact if_congr (cmp_eq_lt_iff _ _) rfl rfl

theorem overCount_of_ne (h : a.turn b p ≠ .lt) : overCount p a b = 0 := if_neg h

theorem overCount_of_lt (h : a.turn b p = .lt) : overCount p a b = 1 := if_pos h

theorem higher_add_le_one (ha : a.x ≤ p.x) (hb : p.x < b.x) (h : a.turn b p ≠ .lt) :
    higher p a + higher p b ≤ 1 := by
  rcases higher_cases p a with ⟨hha, hya⟩ | ⟨hha, -⟩ <;>
    rcases higher_cases p b with ⟨hhb, hyb⟩ | ⟨hhb, -⟩ <;> rw [hha, hhb]
  case inl.inl => exact absurd (turn_eq_lt_of_over ha hb hya hyb.le) h
  all_goals decide

theorem one_le_higher_add (ha : a.x ≤ p.x) (hb : p.x < b.x) (h : a.turn b p = .lt) :
    1 ≤ higher p a + higher p b := by
  rcases higher_cases p a with ⟨hha, hya⟩ | ⟨hha, hya⟩ <;>
    rcases higher_cases p b with ⟨hhb, hyb⟩ | ⟨hhb, hyb⟩ <;> rw [hha, hhb]
  case inr.inr => exact absurd h (turn_ne_lt_of_le ha hb hya hyb)
  all_goals decide

theorem higher_bounds (p v : Point ℝ) : 0 ≤ higher p v ∧ higher p v ≤ 1 := by
  unfold higher
  split_ifs <;> decide

/-- An edge that leads to the east across the meridian of a point. -/
theorem windingStep?_eastward (ha : a.x ≤ p.x) (hb : p.x < b.x) :
    windingStep? p a b = none ∨ windingStep? p a b = some (higher p b - overCount p a b) := by
  have hbounds := And.intro (higher_bounds p a) (higher_bounds p b)
  cases hturn : a.turn b p with
  | eq =>
    have hne : a.turn b p ≠ .lt := by simp [hturn]
    rw [windingStep?_eq hturn, overCount_of_ne hne]
    split_ifs with hheld
    · exact Or.inl rfl
    · rcases higher_cases p b with ⟨-, hyb⟩ | ⟨hhb, -⟩
      · have hya : a.y ≤ p.y := not_lt.1 fun hya => hne (turn_eq_lt_of_over ha hb hya hyb.le)
        exact absurd ⟨Scalar.isBetween_real.2 (Or.inl ⟨ha, hb.le⟩), Or.inl ⟨hya, hyb.le⟩⟩ hheld
      · exact Or.inr (by rw [hhb, sub_zero])
  | gt =>
    have hne : a.turn b p ≠ .lt := by simp [hturn]
    have hsum := higher_add_le_one ha hb hne
    rw [windingStep?_gt hturn, overCount_of_ne hne]
    exact Or.inr (congrArg some (by omega))
  | lt =>
    have hsum := one_le_higher_add ha hb hturn
    rw [windingStep?_lt hturn, overCount_of_lt hturn]
    exact Or.inr (congrArg some (by omega))

/-- An edge that leads to the west across the meridian of a point. If the point is on a line with it,
then it lies on the edge. -/
theorem windingStep?_westward (ha : a.x ≤ p.x) (hb : p.x < b.x) :
    windingStep? p b a = if a.turn b p = .eq then none else some (overCount p a b - higher p b) := by
  have hbounds := And.intro (higher_bounds p a) (higher_bounds p b)
  have hswap : b.turn a p = (a.turn b p).swap := Point.turn_swap
  cases hturn : a.turn b p with
  | eq =>
    rw [hturn] at hswap
    rw [if_pos rfl, windingStep?_eq hswap, if_pos]
    refine ⟨Scalar.isBetween_real.2 (Or.inr ⟨ha, hb.le⟩), ?_⟩
    rcases lt_or_ge p.y b.y with hyb | hyb
    · refine Or.inr ⟨hyb, not_lt.1 fun hya => ?_⟩
      rw [turn_eq_lt_of_over ha hb hya hyb.le] at hturn
      cases hturn
    · refine Or.inl ⟨hyb, not_lt.1 fun hya => ?_⟩
      rw [turn_eq_gt_of_under ha hb hya hyb] at hturn
      cases hturn
  | gt =>
    have hne : a.turn b p ≠ .lt := by simp [hturn]
    have hsum := higher_add_le_one ha hb hne
    rw [hturn] at hswap
    rw [windingStep?_lt hswap, overCount_of_ne hne, if_neg (by decide)]
    exact congrArg some (by omega)
  | lt =>
    have hsum := one_le_higher_add ha hb hturn
    rw [hturn] at hswap
    rw [windingStep?_gt hswap, overCount_of_lt hturn, if_neg (by decide)]
    exact congrArg some (by omega)

theorem windingStep?_westward_cases (ha : a.x ≤ p.x) (hb : p.x < b.x) :
    windingStep? p b a = none ∨ windingStep? p b a = some (overCount p a b - higher p b) := by
  rw [windingStep?_westward ha hb]
  split_ifs
  · exact Or.inl rfl
  · exact Or.inr rfl

/-- An edge that counts for nothing definite holds the point. -/
theorem holds_of_windingStep?_eq_none (h : windingStep? p a b = none) :
    Segment.holds (a, b) p = true := by
  cases hturn : a.turn b p with
  | eq =>
    rw [windingStep?_eq hturn] at h
    split_ifs at h with hheld
    obtain ⟨hx, hy⟩ := hheld
    have hy' : Scalar.isBetween p.y a.y b.y = true :=
      Scalar.isBetween_real.2 (hy.imp_right fun h => ⟨h.2, h.1.le⟩)
    simp [Segment.holds, Point.inSpan, hturn, hx, hy']
  | gt =>
    rw [windingStep?_gt hturn] at h
    cases h
  | lt =>
    rw [windingStep?_lt hturn] at h
    cases h

end Edges

/-! ## Paths -/

/-- The edges make `n` turns around the point, unless it lies on one of them. -/
def Turns (p : Point ℝ) (edges : List (Segment ℝ)) (n : ℤ) : Prop :=
  ∀ turns, winding? p edges turns = none ∨ winding? p edges turns = some (turns + n)

section Paths

variable {p a b : Point ℝ} {edges rest : List (Segment ℝ)} {m n : ℤ}

theorem winding?_append (turns : ℤ) :
    winding? p (edges ++ rest) turns = (winding? p edges turns).bind (winding? p rest) := by
  induction edges generalizing turns with
  | nil => rfl
  | cons e edges ih =>
    obtain ⟨a, b⟩ := e
    rw [List.cons_append, winding?, winding?]
    cases windingStep? p a b with
    | none => rfl
    | some k => exact ih (turns + k)

/-- No number of turns is given around a point on one of the edges. -/
theorem winding?_eq_none_iff (turns : ℤ) :
    winding? p edges turns = none ↔ ∃ e ∈ edges, windingStep? p e.1 e.2 = none := by
  induction edges generalizing turns with
  | nil => simp [winding?]
  | cons e edges ih =>
    obtain ⟨a, b⟩ := e
    rw [winding?, List.exists_mem_cons_iff]
    cases hstep : windingStep? p a b with
    | none => simp
    | some k => simp [ih]

theorem Turns.nil : Turns p [] 0 := fun turns => Or.inr (by rw [winding?, add_zero])

theorem Turns.append (h : Turns p edges m) (h' : Turns p rest n) :
    Turns p (edges ++ rest) (m + n) := by
  intro turns
  rw [winding?_append]
  rcases h turns with hnone | hsome
  · exact Or.inl (by rw [hnone]; rfl)
  · rw [hsome, Option.bind_some, ← add_assoc]
    exact h' (turns + m)

theorem Turns.congr (h : Turns p edges m) (heq : m = n) : Turns p edges n := heq ▸ h

theorem Turns.singleton (h : windingStep? p a b = none ∨ windingStep? p a b = some n) :
    Turns p [(a, b)] n := by
  intro turns
  rcases h with hnone | hsome
  · exact Or.inl (by simp only [winding?, hnone])
  · exact Or.inr (by simp only [winding?, hsome])

theorem Turns.cons (h : windingStep? p a b = none ∨ windingStep? p a b = some m)
    (h' : Turns p rest n) : Turns p ((a, b) :: rest) (m + n) :=
  (Turns.singleton h).append h'

/-- Edges to the west of a point make no turn around it. -/
theorem turns_west (h : ∀ e ∈ edges, e.1.x ≤ p.x ∧ e.2.x ≤ p.x) : Turns p edges 0 := by
  induction edges with
  | nil => exact Turns.nil
  | cons e edges ih =>
    obtain ⟨⟨ha, hb⟩, hedges⟩ := List.forall_mem_cons.1 h
    exact (Turns.cons (windingStep?_west ha hb) (ih hedges)).congr (add_zero 0)

end Paths

/-! ## Chains -/

section Chains

variable {p a b : Point ℝ}

theorem Ring.segments_append (before after : List (Point ℝ)) (a b : Point ℝ) :
    Ring.segments (before ++ a :: b :: after) =
      Ring.segments (before ++ [a]) ++ (a, b) :: Ring.segments (b :: after) := by
  induction before with
  | nil => rfl
  | cons c before ih =>
    cases before with
    | nil => rfl
    | cons d before => exact congrArg (List.cons (c, d)) ih

theorem Ring.segments_reverse_cons (rest : List (Point ℝ)) (a b : Point ℝ) :
    Ring.segments (a :: b :: rest).reverse = Ring.segments (b :: rest).reverse ++ [(b, a)] := by
  rw [List.reverse_cons, List.reverse_cons, List.append_assoc]
  exact Ring.segments_append rest.reverse [] b a

theorem Ring.mem_of_mem_segments {line : List (Point ℝ)} (h : (a, b) ∈ Ring.segments line) :
    a ∈ line ∧ b ∈ line :=
  ⟨(List.of_mem_zip h).1, List.mem_of_mem_tail (List.of_mem_zip h).2⟩

theorem Ring.le_of_mem_segments {line : List (Point ℝ)}
    (heastward : line.Pairwise fun q r => q.x ≤ r.x) (h : (a, b) ∈ Ring.segments line) :
    a.x ≤ b.x := by
  induction line with
  | nil => cases h
  | cons v rest ih =>
    cases rest with
    | nil => cases h
    | cons w rest =>
      obtain ⟨hv, hrest⟩ := List.pairwise_cons.1 heastward
      rcases List.mem_cons.1 h with heq | hmem
      · obtain ⟨rfl, rfl⟩ := Prod.mk.inj heq
        exact hv b List.mem_cons_self
      · exact ih hrest hmem

/-- Along a path that never leads back to the west, one edge ends where the other one begins or
further west. -/
theorem Ring.eq_or_apart_of_mem_segments {line : List (Point ℝ)} {c d : Point ℝ}
    (heastward : line.Pairwise fun q r => q.x ≤ r.x) (h : (a, b) ∈ Ring.segments line)
    (h' : (c, d) ∈ Ring.segments line) : (c, d) = (a, b) ∨ d.x ≤ a.x ∨ b.x ≤ c.x := by
  induction line with
  | nil => cases h
  | cons v rest ih =>
    cases rest with
    | nil => cases h
    | cons w rest =>
      obtain ⟨-, hrest⟩ := List.pairwise_cons.1 heastward
      have hlater : ∀ q ∈ w :: rest, w.x ≤ q.x :=
        List.forall_mem_cons.2 ⟨le_rfl, (List.pairwise_cons.1 hrest).1⟩
      rcases List.mem_cons.1 h with heq | hmem <;> rcases List.mem_cons.1 h' with heq' | hmem'
      · exact Or.inl (heq'.trans heq.symm)
      · obtain ⟨rfl, rfl⟩ := Prod.mk.inj heq
        exact Or.inr (Or.inr (hlater c (Ring.mem_of_mem_segments hmem').1))
      · obtain ⟨rfl, rfl⟩ := Prod.mk.inj heq'
        exact Or.inr (Or.inl (hlater a (Ring.mem_of_mem_segments hmem).1))
      · exact ih hrest hmem hmem'

/-- One of the path's edges holds the point. -/
def Ring.PassesThrough (line : List (Point ℝ)) (p : Point ℝ) : Prop :=
  ∃ e ∈ Ring.segments line, Segment.holds e p = true

/-- Where a path that never leads back to the west crosses a meridian in one edge, it passes it at the
height of this edge. -/
theorem Ring.passesThrough_iff {line : List (Point ℝ)} {x y : ℝ}
    (heastward : line.Pairwise fun q r => q.x ≤ r.x) (hmem : (a, b) ∈ Ring.segments line)
    (ha : a.x < x) (hb : x < b.x) : Ring.PassesThrough line ⟨x, y⟩ ↔ y = heightAt a b x := by
  rw [← holds_iff_eq_heightAt ha.le hb]
  constructor
  · rintro ⟨⟨c, d⟩, hmem', hheld⟩
    rcases Ring.eq_or_apart_of_mem_segments heastward hmem hmem' with heq | hwest | heast
    · rwa [heq] at hheld
    · have hcd := Ring.le_of_mem_segments heastward hmem'
      rcases (between_of_holds hheld).1 with h | h <;> linarith [h.1, h.2]
    · have hcd := Ring.le_of_mem_segments heastward hmem'
      rcases (between_of_holds hheld).1 with h | h <;> linarith [h.1, h.2]
  · exact fun hheld => ⟨_, hmem, hheld⟩

theorem Ring.mem_segments_reverse {line : List (Point ℝ)} (h : (a, b) ∈ Ring.segments line) :
    (b, a) ∈ Ring.segments line.reverse := by
  induction line with
  | nil => cases h
  | cons v rest ih =>
    cases rest with
    | nil => cases h
    | cons w rest =>
      rw [Ring.segments_reverse_cons]
      rcases List.mem_cons.1 h with heq | hmem
      · obtain ⟨rfl, rfl⟩ := Prod.mk.inj heq
        exact List.mem_append_right _ (List.mem_singleton_self _)
      · exact List.mem_append_left _ (ih hmem)

theorem Ring.PassesThrough.of_reverse {line : List (Point ℝ)}
    (h : Ring.PassesThrough line.reverse p) : Ring.PassesThrough line p := by
  obtain ⟨⟨b, a⟩, hmem, hheld⟩ := h
  refine ⟨(a, b), ?_, holds_swap hheld⟩
  rw [← line.reverse_reverse]
  exact Ring.mem_segments_reverse hmem

/-- A path to the east of a point turns around it as far as it rises over the point. -/
theorem turns_east {v last : Point ℝ} {rest : List (Point ℝ)} (h : ∀ q ∈ v :: rest, p.x < q.x)
    (hlast : (v :: rest).getLast? = some last) :
    Turns p (Ring.segments (v :: rest)) (higher p last - higher p v) ∧
      Turns p (Ring.segments (v :: rest).reverse) (higher p v - higher p last) := by
  induction rest generalizing v with
  | nil =>
    obtain rfl : v = last := by simpa using hlast
    rw [sub_self]
    exact ⟨Turns.nil, Turns.nil⟩
  | cons w rest ih =>
    obtain ⟨hv, hrest⟩ := List.forall_mem_cons.1 h
    have hw := hrest w List.mem_cons_self
    obtain ⟨hforth, hback⟩ := ih hrest (by rwa [List.getLast?_cons_cons] at hlast)
    constructor
    · exact (Turns.cons (Or.inr (windingStep?_east hv hw)) hforth).congr (by ring)
    · rw [Ring.segments_reverse_cons]
      exact (hback.append (Turns.singleton (Or.inr (windingStep?_east hw hv)))).congr (by ring)

/-- A path from the meridian of a point or the west of it to the east crosses the meridian. -/
theorem exists_crossing {line : List (Point ℝ)} {first last : Point ℝ}
    (hfirst : line.head? = some first) (hlast : line.getLast? = some last) (hwest : first.x ≤ p.x)
    (heast : p.x < last.x) :
    ∃ a b, (a, b) ∈ Ring.segments line ∧ a.x ≤ p.x ∧ p.x < b.x := by
  induction line generalizing first with
  | nil => cases hfirst
  | cons v rest ih =>
    obtain rfl : v = first := by simpa using hfirst
    cases rest with
    | nil =>
      obtain rfl : v = last := by simpa using hlast
      exact absurd heast (not_lt.2 hwest)
    | cons w rest =>
      rcases lt_or_ge p.x w.x with hw | hw
      · exact ⟨v, w, List.mem_cons_self, hwest, hw⟩
      · obtain ⟨a, b, hmem, hcrossing⟩ := ih rfl (by rwa [List.getLast?_cons_cons] at hlast) hw
        exact ⟨a, b, List.mem_cons_of_mem _ hmem, hcrossing⟩

/-- A path that never leads back to the west crosses the meridian of a point in one edge, and only
this edge and the height of the path's end matter for the turns around the point. -/
theorem turns_of_crossing {line : List (Point ℝ)} {last : Point ℝ}
    (heastward : line.Pairwise fun q r => q.x ≤ r.x) (hlast : line.getLast? = some last)
    (hmem : (a, b) ∈ Ring.segments line) (ha : a.x ≤ p.x) (hb : p.x < b.x) :
    Turns p (Ring.segments line) (higher p last - overCount p a b) ∧
      Turns p (Ring.segments line.reverse) (overCount p a b - higher p last) := by
  induction line with
  | nil => cases hmem
  | cons v rest ih =>
    cases rest with
    | nil => cases hmem
    | cons w rest =>
      obtain ⟨hv, hrest⟩ := List.pairwise_cons.1 heastward
      rw [List.getLast?_cons_cons] at hlast
      rw [Ring.segments_reverse_cons]
      rcases List.mem_cons.1 hmem with heq | hmem
      · -- from here on, the path is to the east of the point
        obtain ⟨rfl, rfl⟩ := Prod.mk.inj heq
        have hlater : ∀ q ∈ b :: rest, p.x < q.x := by
          refine List.forall_mem_cons.2 ⟨hb, fun q hq => ?_⟩
          exact hb.trans_le ((List.pairwise_cons.1 hrest).1 q hq)
        obtain ⟨hforth, hback⟩ := turns_east hlater hlast
        constructor
        · exact (Turns.cons (windingStep?_eastward ha hb) hforth).congr (by ring)
        · exact (hback.append (Turns.singleton (windingStep?_westward_cases ha hb))).congr (by ring)
      · -- the edge to `w` is still to the west of it
        have hwest : w.x ≤ p.x := by
          rcases List.mem_cons.1 (Ring.mem_of_mem_segments hmem).1 with rfl | hlater
          · exact ha
          · exact ((List.pairwise_cons.1 hrest).1 a hlater).trans ha
        have hvwest : v.x ≤ p.x := (hv w List.mem_cons_self).trans hwest
        obtain ⟨hforth, hback⟩ := ih hrest hlast hmem
        constructor
        · exact (Turns.cons (windingStep?_west hvwest hwest) hforth).congr (by ring)
        · exact (hback.append (Turns.singleton (windingStep?_west hwest hvwest))).congr (by ring)

end Chains

/-! ## Locations -/

theorem Location.eq_inside_of_ne {l : Location} (hon : l ≠ .boundary) (hout : l ≠ .outside) :
    l = .inside := by
  cases l <;> simp at *

theorem Location.eq_outside_of_ne {l : Location} (hon : l ≠ .boundary) (hin : l ≠ .inside) :
    l = .outside := by
  cases l <;> simp at *

section Locations

variable {ring : Ring ℝ} {p : Point ℝ}

theorem Ring.locate_eq (hne : Ring.segments ring ≠ []) :
    Ring.locate ring p =
      match winding? p (Ring.segments ring) 0 with
      | none => .boundary
      | some 0 => .outside
      | some _ => .inside := by
  match ring, hne with
  | _ :: _ :: _, _ => rfl

theorem Ring.locate_eq_boundary_iff (hne : Ring.segments ring ≠ []) :
    Ring.locate ring p = .boundary ↔ ∃ e ∈ Ring.segments ring, windingStep? p e.1 e.2 = none := by
  rw [Ring.locate_eq hne, ← winding?_eq_none_iff 0]
  split <;> simp [*]

theorem Ring.passesThrough_of_locate (hne : Ring.segments ring ≠ [])
    (h : Ring.locate ring p = .boundary) : Ring.PassesThrough ring p := by
  obtain ⟨e, he, hstep⟩ := (Ring.locate_eq_boundary_iff hne).1 h
  exact ⟨e, he, holds_of_windingStep?_eq_none hstep⟩

/-- The number of turns tells where a point is that is not on the boundary. -/
theorem Turns.locate {n : ℤ} (h : Turns p (Ring.segments ring) n) (hne : Ring.segments ring ≠ []) :
    Ring.locate ring p = .boundary ∨ (Ring.locate ring p = .outside ∧ n = 0) ∨
      (Ring.locate ring p = .inside ∧ n ≠ 0) := by
  rw [Ring.locate_eq hne]
  rcases h 0 with hnone | hsome
  · rw [hnone]
    exact Or.inl rfl
  · rw [hsome, zero_add]
    refine Or.inr ?_
    split
    · next heq => cases heq
    · next heq => exact Or.inl ⟨rfl, Option.some.inj heq⟩
    · next hzero heq => exact Or.inr ⟨rfl, fun h => hzero ((Option.some.inj heq).symm.trans h)⟩

theorem Turns.eq_zero_of_outside {n : ℤ} (h : Turns p (Ring.segments ring) n)
    (hne : Ring.segments ring ≠ []) (hout : Ring.locate ring p = .outside) : n = 0 := by
  rcases h.locate hne with hon | ⟨-, hn⟩ | ⟨hin, -⟩
  · cases hout.symm.trans hon
  · exact hn
  · cases hout.symm.trans hin

theorem Turns.ne_zero_of_inside {n : ℤ} (h : Turns p (Ring.segments ring) n)
    (hne : Ring.segments ring ≠ []) (hin : Ring.locate ring p = .inside) : n ≠ 0 := by
  rcases h.locate hne with hon | ⟨hout, -⟩ | ⟨-, hn⟩
  · cases hin.symm.trans hon
  · cases hin.symm.trans hout
  · exact hn

end Locations

end UtmTiles
