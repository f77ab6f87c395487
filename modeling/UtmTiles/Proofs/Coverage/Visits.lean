import Mathlib.Algebra.BigOperators.Group.List.Basic
import Mathlib.Algebra.GroupWithZero.Nat
import Mathlib.Data.List.Perm.Subperm
import UtmTiles.Proofs.Coverage.Walk

/-!
# Walks end

Nothing is assumed here about the answers that a walk gets: each range and each cell may get any
answer, whether or not the answers fit together, and the bounds of the walk's range may be in the
wrong order. Even so, a walk hands out some of the cells of its range, none of them twice, and then
nothing more (`RangeTests.found_subperm`); and all of its calls together visit a bounded number of
ranges (`Walk.sum_visits_le`).
-/

namespace UtmTiles

/-! ## What can be found -/

namespace CellRange

theorem length_rowFrom (c : Cell) (count : Nat) : (rowFrom c count).length = count := by
  induction count generalizing c with
  | zero => rfl
  | succ count ih => rw [rowFrom, List.length_cons, ih]

theorem length_rowsFrom (r : CellRange) (tj : Int) (count : Nat) :
    (r.rowsFrom tj count).length = count * r.width.toNat := by
  induction count generalizing tj with
  | zero => rw [rowsFrom, List.length_nil, Nat.zero_mul]
  | succ count ih =>
    rw [rowsFrom, List.length_append, length_rowFrom, ih, Nat.succ_mul, Nat.add_comm]

theorem length_scan (r : CellRange) : r.scan.length = r.height.toNat * r.width.toNat :=
  r.length_rowsFrom _ _

theorem count_flatMap_scan (rs : List CellRange) (c : Cell) :
    (rs.flatMap scan).count c = rs.countP (fun q => decide (q.Holds c)) := by
  induction rs with
  | nil => rfl
  | cons r rs ih =>
    rw [List.flatMap_cons, List.count_append, ih, count_scan, List.countP_cons]
    simp only [decide_eq_true_eq, Nat.add_comm]

/-- The parts of a range share its cells. -/
theorem flatMap_scan_parts_perm (r : CellRange) : (r.parts.flatMap scan).Perm r.scan := by
  rw [List.perm_iff_count]
  intro c
  rw [count_flatMap_scan, countP_parts, count_scan]

end CellRange

/-- Whatever the tests answer, what is found are some of the cells of the ranges, none of them more
often than the ranges hold it. -/
theorem RangeTests.found_subperm (t : RangeTests) (rs : List CellRange) :
    (t.found rs).Subperm (rs.flatMap CellRange.scan) := by
  fun_induction found t rs with
  | case1 => exact List.nil_subperm
  | case2 r rest _ ih =>
    rw [List.flatMap_cons]
    exact ih.trans (List.sublist_append_right _ _).subperm
  | case3 r rest cells hvisit ih =>
    rw [List.flatMap_cons, eq_of_tested hvisit]
    exact List.filter_sublist.subperm.append ih
  | case4 r rest _ ih =>
    rw [List.flatMap_cons]
    exact (List.Subperm.refl _).append ih
  | case5 r rest _ ih =>
    rw [List.flatMap_append] at ih
    rw [List.flatMap_cons]
    exact ih.trans (r.flatMap_scan_parts_perm.append_right _).subperm

/-! ## Visits -/

namespace Walk

open CellRange (backlog)

/-- The number of ranges that a call visits before it hands out a cell or the walk is at its end. -/
def visits (t : RangeTests) (w : Walk) : Nat :=
  match w.checked with
  | _ :: _ => 0
  | [] =>
    match w.accepted.map RangeCursor.next with
    | some (some _, _) => 0
    | _ =>
      match _h : w.ranges with
      | [] => 0
      | r :: rest => visits t (visited t r rest) + 1
termination_by backlog w.ranges
decreasing_by
  rw [_h]
  exact backlog_visited_lt t r rest

/-- The visits of a call are taken off the bound on all visits. -/
theorem visits_add_backlog_le (t : RangeTests) (w : Walk) :
    visits t w + backlog (next t w).2.ranges ≤ backlog w.ranges := by
  fun_induction next t w with
  | case1 w c checked hchecked =>
    rw [visits]
    simp only [hchecked]
    omega
  | case2 w hchecked c cursor haccepted =>
    rw [visits]
    simp only [hchecked, haccepted]
    omega
  | case3 w hchecked hranges haccepted =>
    obtain ⟨ranges, checked, accepted⟩ := w
    subst hchecked hranges
    rw [visits]
    simp only
    omega
  | case4 w hchecked r rest hranges haccepted ih =>
    obtain ⟨ranges, checked, accepted⟩ := w
    subst hchecked hranges
    have hless := backlog_visited_lt t r rest
    rw [visits]
    simp only
    omega

/-- All calls together, however many, visit no more ranges than the bounds of the walk's ranges
allow. -/
theorem sum_visits_le (t : RangeTests) (w : Walk) (calls : Nat) :
    ((List.range calls).map fun n => visits t ((producer t).after w n)).sum ≤ backlog w.ranges := by
  induction calls generalizing w with
  | zero => exact Nat.zero_le _
  | succ calls ih =>
    have hcall := visits_add_backlog_le t w
    have hlater := ih (next t w).2
    rw [List.range_succ_eq_map, List.map_cons, List.sum_cons, List.map_map]
    exact Nat.le_trans (Nat.add_le_add_left hlater _) hcall

/-! ## The run of a walk -/

/-- Whatever the tests answer about ranges and cells, and whatever range a walk starts with, its calls
give cells of the range, none of them twice, and from then on nothing. They are no more calls with a
cell than the range has cells, and no more visits than twice its extended area. -/
theorem ends_within_range (t : RangeTests) (r : CellRange) :
    ∃ cells : List Cell,
      (∀ n, (producer t).ask (start r) n = cells[n]?) ∧
      cells.Nodup ∧
      (∀ c ∈ cells, r.west ≤ c.ti ∧ c.ti < r.east ∧ r.south ≤ c.tj ∧ c.tj < r.north) ∧
      cells.length ≤ r.height.toNat * r.width.toNat ∧
      ∀ calls, ((List.range calls).map fun n => visits t ((producer t).after (start r) n)).sum ≤
        2 * (max r.width 1).toNat * (max r.height 1).toNat - 1 := by
  have hpart : (t.found [r]).Subperm r.scan := by
    simpa only [List.flatMap_cons, List.flatMap_nil, List.append_nil] using t.found_subperm [r]
  refine ⟨t.found [r], fun n => ?_, ?_, fun c hc => ?_, ?_, fun calls => ?_⟩
  · rw [Producer.ask_eq_getElem?]
    exact congrArg (·[n]?) (left_start t r)
  · obtain ⟨cells, hperm, hsublist⟩ := hpart
    exact hperm.nodup_iff.1 (r.nodup_scan.sublist hsublist)
  · exact CellRange.mem_scan.1 (hpart.subset hc)
  · exact r.length_scan ▸ hpart.length_le
  · exact sum_visits_le t (start r) calls

end Walk
end UtmTiles
