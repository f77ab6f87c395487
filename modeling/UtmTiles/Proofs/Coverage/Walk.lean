import UtmTiles.Coverage.Walk
import UtmTiles.Proofs.Coverage.Range

/-!
# Walks find what a scan finds

A walk decides about whole ranges where it can. If these decisions agree with the test of the single
cells (`RangeTests.IsSound`), then the walk hands out the cells that a scan of its range with this
test would give, each once, and then nothing.

`RangeTests.count_found` carries the proof: it counts how often a cell is found in a list of ranges.
A visit takes a range from the list and gives its cells or puts its parts in its place, and neither
changes the count.
-/

namespace UtmTiles

/-- A range weighs no more than all of them. -/
theorem CellRange.weight_le_backlog {r : CellRange} {rs : List CellRange} (h : r ∈ rs) :
    r.weight ≤ backlog rs := by
  induction rs with
  | nil => cases h
  | cons q rs ih =>
    rw [backlog_cons]
    rcases List.mem_cons.1 h with rfl | h
    · exact Nat.le_add_right _ _
    · exact Nat.le_trans (ih h) (Nat.le_add_left _ _)

/-- What is decided about ranges agrees with the test of their cells. -/
structure RangeTests.IsSound (t : RangeTests) : Prop where
  /-- No cell of a range out of reach touches the shape. -/
  inReach : ∀ q c, t.inReach q = false → q.Holds c → t.touches c = false
  /-- All cells of a range within the shape touch it. -/
  isWithin : ∀ q c, t.isWithin q = true → q.Holds c → t.touches c = true
  /-- No cell of a range far from the shape touches it. -/
  isNear : ∀ q c, t.isNear q = false → q.Holds c → t.touches c = false

namespace RangeTests

/-! ## Visits -/

/-- All that can become of a range, and why. -/
theorem visit_cases (t : RangeTests) (q : CellRange) :
    (t.visit q = .skipped ∧ (t.inReach q = false ∨ t.isNear q = false)) ∨
    (t.visit q = .tested (q.scan.filter t.touches) ∧ q.IsSmall) ∨
    (t.visit q = .accepted ∧ t.isWithin q = true) ∨
    (t.visit q = .divided ∧ ¬ q.IsSmall) := by
  unfold visit
  rw [CellRange.toList_cells]
  grind

theorem touches_of_skipped {t : RangeTests} (h : t.IsSound) {q : CellRange} {c : Cell}
    (hvisit : t.visit q = .skipped) (hc : q.Holds c) : t.touches c = false := by
  rcases t.visit_cases q with ⟨_, hreach | hnear⟩ | ⟨hother, _⟩ | ⟨hother, _⟩ | ⟨hother, _⟩
  · exact h.inReach q c hreach hc
  · exact h.isNear q c hnear hc
  all_goals
    rw [hother] at hvisit
    cases hvisit

theorem eq_of_tested {t : RangeTests} {q : CellRange} {cells : List Cell}
    (hvisit : t.visit q = .tested cells) : cells = q.scan.filter t.touches := by
  rcases t.visit_cases q with ⟨hother, _⟩ | ⟨htested, _⟩ | ⟨hother, _⟩ | ⟨hother, _⟩
  · rw [hother] at hvisit
    cases hvisit
  · rw [htested] at hvisit
    cases hvisit
    rfl
  all_goals
    rw [hother] at hvisit
    cases hvisit

theorem isWithin_of_accepted {t : RangeTests} {q : CellRange} (hvisit : t.visit q = .accepted) :
    t.isWithin q = true := by
  rcases t.visit_cases q with ⟨hother, _⟩ | ⟨hother, _⟩ | ⟨_, hwithin⟩ | ⟨hother, _⟩
  case inr.inr.inl => exact hwithin
  all_goals
    rw [hother] at hvisit
    cases hvisit

/-! ## Counting what is found -/

theorem count_filter_touches (t : RangeTests) (q : CellRange) (c : Cell) :
    (q.scan.filter t.touches).count c = if t.touches c ∧ q.Holds c then 1 else 0 := by
  by_cases htouches : t.touches c = true
  · rw [List.count_filter htouches, CellRange.count_scan]
    simp only [htouches, true_and]
  · have hout : c ∉ q.scan.filter t.touches := fun hc => htouches (List.mem_filter.1 hc).2
    rw [List.count_eq_zero_of_not_mem hout, if_neg fun hc => htouches hc.1]

/-- A cell that touches the shape is found as often as there are ranges that hold it, and no other
cell is found. -/
theorem count_found {t : RangeTests} (h : t.IsSound) (rs : List CellRange) (c : Cell) :
    (t.found rs).count c = if t.touches c then rs.countP (fun q => decide (q.Holds c)) else 0 := by
  fun_induction found t rs with
  | case1 => simp only [List.count_nil, List.countP_nil, ite_self]
  | case2 q rest hvisit ih =>
    rw [ih, List.countP_cons]
    by_cases hc : q.Holds c
    · have htouches := touches_of_skipped h hvisit hc
      simp only [htouches, Bool.false_eq_true, if_false]
    · simp only [hc, decide_false, Bool.false_eq_true, if_false, Nat.add_zero]
  | case3 q rest cells hvisit ih =>
    rw [eq_of_tested hvisit, List.count_append, count_filter_touches, ih, List.countP_cons]
    simp only [decide_eq_true_eq]
    split_ifs <;> grind
  | case4 q rest hvisit ih =>
    rw [List.count_append, CellRange.count_scan, ih, List.countP_cons]
    have htouches := h.isWithin q c (isWithin_of_accepted hvisit)
    simp only [decide_eq_true_eq]
    split_ifs <;> grind
  | case5 q rest hvisit ih =>
    -- the parts together hold a cell as often as the whole does
    rw [ih, List.countP_append, CellRange.countP_parts, List.countP_cons]
    simp only [decide_eq_true_eq, Nat.add_comm]

/-- The cells found in a range are the cells of the range that touch the shape. -/
theorem perm_found {t : RangeTests} (h : t.IsSound) (r : CellRange) :
    (t.found [r]).Perm (r.scan.filter t.touches) := by
  rw [List.perm_iff_count]
  intro c
  rw [count_found h, count_filter_touches, List.countP_cons, List.countP_nil]
  simp only [decide_eq_true_eq]
  grind

/-! ## The visits on the way to a cell -/

/-- Ranges are visited one after the other. -/
theorem found_append (t : RangeTests) (rs ss : List CellRange) :
    t.found (rs ++ ss) = t.found rs ++ t.found ss := by
  fun_induction found t rs with
  | case1 => rfl
  | case2 q rest hvisit ih => rw [List.cons_append, found_cons, hvisit, ih]
  | case3 q rest cells hvisit ih =>
    rw [List.cons_append, found_cons, hvisit, List.append_assoc, ← ih]
  | case4 q rest hvisit ih =>
    rw [List.cons_append, found_cons, hvisit, List.append_assoc, ← ih]
  | case5 q rest hvisit ih =>
    rw [List.cons_append, found_cons, hvisit, ← ih, List.append_assoc]

theorem mem_found {t : RangeTests} {rs : List CellRange} {c : Cell} :
    c ∈ t.found rs ↔ ∃ r ∈ rs, c ∈ t.found [r] := by
  induction rs with
  | nil => simp only [found_nil, List.not_mem_nil, false_and, exists_false]
  | cons r rest ih =>
    rw [← List.singleton_append, found_append, List.mem_append, ih]
    simp only [List.singleton_append, List.mem_cons, exists_eq_or_imp]

/-- A walk through `r` that comes to the cell visits `q`. -/
inductive Visits (t : RangeTests) (c : Cell) : CellRange → CellRange → Prop
  | self {r : CellRange} (hc : r.Holds c) : Visits t c r r
  | part {r p q : CellRange} (hvisit : t.visit r = .divided) (hp : p ∈ r.parts)
      (hq : Visits t c p q) : Visits t c r q

theorem Visits.holds {t : RangeTests} {c : Cell} {r q : CellRange} (h : t.Visits c r q) :
    r.Holds c := by
  induction h with
  | self hc => exact hc
  | part _ hp _ ih => exact CellRange.holds_of_mem_parts hp ih

/-- Only a range that is divided is followed by other visits. -/
theorem Visits.eq_or_divided {t : RangeTests} {c : Cell} {r q : CellRange} (h : t.Visits c r q) :
    q = r ∨ t.visit r = .divided := by
  cases h with
  | self => exact Or.inl rfl
  | part hvisit => exact Or.inr hvisit

/-- From a range that is divided, the way to a cell leads on through the part that holds it. -/
theorem visits_part {t : RangeTests} {c : Cell} {r p q : CellRange} (hp : p ∈ r.parts)
    (hc : p.Holds c) (hq : q ≠ r) (h : t.Visits c r q) : t.Visits c p q := by
  cases h with
  | self => exact absurd rfl hq
  | part _ hother hrest =>
    have hwhole := CellRange.holds_of_mem_parts hp hc
    rw [(CellRange.existsUnique_part hwhole).unique ⟨hp, hc⟩ ⟨hother, hrest.holds⟩]
    exact hrest

/-- The cell is found on the visits that lead to it: no range on the way is skipped, and either the
cell touches the shape or a range on the way is taken as a whole. -/
def Reports (t : RangeTests) (r : CellRange) (c : Cell) : Prop :=
  (∀ q, t.Visits c r q → t.visit q ≠ .skipped) ∧
    (t.touches c = true ∨ ∃ q, t.Visits c r q ∧ t.visit q = .accepted)

/-- A range that is not divided decides about its cells. -/
theorem reports_iff_of_not_divided {t : RangeTests} {r : CellRange} {c : Cell}
    (hvisit : t.visit r ≠ .divided) (hc : r.Holds c) :
    t.Reports r c ↔
      t.visit r ≠ .skipped ∧ (t.touches c = true ∨ t.visit r = .accepted) := by
  -- the way to the cell ends at this range
  have hway : ∀ q, t.Visits c r q ↔ q = r := fun q => by
    constructor
    · exact fun h => h.eq_or_divided.resolve_right hvisit
    · rintro rfl
      exact Visits.self hc
  simp only [Reports, hway, forall_eq, exists_eq_left]

/-- A range that is divided leaves the decision to the part with the cell. -/
theorem reports_iff_of_divided {t : RangeTests} {r p : CellRange} {c : Cell}
    (hvisit : t.visit r = .divided) (hp : p ∈ r.parts) (hc : p.Holds c) :
    t.Reports r c ↔ t.Reports p c := by
  constructor
  · rintro ⟨hway, hfound⟩
    refine ⟨fun q hq => hway q (.part hvisit hp hq), hfound.imp_right ?_⟩
    rintro ⟨q, hq, haccepted⟩
    have hne : q ≠ r := by
      rintro rfl
      rw [hvisit] at haccepted
      cases haccepted
    exact ⟨q, visits_part hp hc hne hq, haccepted⟩
  · rintro ⟨hway, hfound⟩
    refine ⟨fun q hq => ?_, hfound.imp_right ?_⟩
    · by_cases heq : q = r
      · rw [heq, hvisit]
        exact Visit.noConfusion
      · exact hway q (visits_part hp hc heq hq)
    · rintro ⟨q, hq, haccepted⟩
      exact ⟨q, .part hvisit hp hq, haccepted⟩

/-- Whatever the tests answer, the cells found in a range are those that the range holds and that
are found on the visits that lead to them. -/
theorem mem_found_singleton {t : RangeTests} {r : CellRange} {c : Cell} :
    c ∈ t.found [r] ↔ r.Holds c ∧ t.Reports r c := by
  -- the parts of a range that is divided weigh less than the range
  induction hweight : r.weight using Nat.strongRecOn generalizing r with
  | _ n ih =>
  rw [found_cons]
  cases hvisit : t.visit r with
  | skipped =>
    simp only [found_nil, List.not_mem_nil, false_iff, not_and]
    exact fun hc hreports => hreports.1 r (.self hc) hvisit
  | tested cells =>
    simp only [found_nil, List.append_nil, eq_of_tested hvisit, List.mem_filter, CellRange.mem_scan]
    refine and_congr_right fun hc => ?_
    rw [reports_iff_of_not_divided (by rw [hvisit]; exact Visit.noConfusion) hc, hvisit]
    simp only [ne_eq, reduceCtorEq, not_false_eq_true, true_and, or_false]
  | accepted =>
    simp only [found_nil, List.append_nil, CellRange.mem_scan]
    refine (and_iff_left_of_imp fun hc => ?_).symm
    rw [reports_iff_of_not_divided (by rw [hvisit]; exact Visit.noConfusion) hc, hvisit]
    simp only [ne_eq, reduceCtorEq, not_false_eq_true, true_and, or_true]
  | divided =>
    have hparts : ∀ p ∈ r.parts, (c ∈ t.found [p] ↔ p.Holds c ∧ t.Reports p c) := fun p hp =>
      ih p.weight (hweight ▸ Nat.lt_of_le_of_lt (CellRange.weight_le_backlog hp)
        (CellRange.backlog_parts_lt (not_isSmall_of_visit hvisit))) rfl
    simp only [List.append_nil]
    rw [mem_found]
    constructor
    · rintro ⟨p, hp, hfound⟩
      obtain ⟨hc, hreports⟩ := (hparts p hp).1 hfound
      exact ⟨CellRange.holds_of_mem_parts hp hc, (reports_iff_of_divided hvisit hp hc).2 hreports⟩
    · rintro ⟨hc, hreports⟩
      obtain ⟨p, ⟨hp, hpart⟩, -⟩ := CellRange.existsUnique_part hc
      exact ⟨p, hp, (hparts p hp).2 ⟨hpart, (reports_iff_of_divided hvisit hp hpart).1 hreports⟩⟩

end RangeTests

/-! ## The walk -/

namespace Walk

/-- At its start, a walk has to give what is found in its range. -/
theorem left_start (t : RangeTests) (r : CellRange) : (start r).left t = t.found [r] := by
  simp only [start, left, Option.elim_none, List.nil_append]

/-- A walk with sound tests refines the scan of its range: call after call it gives the cells of the
range that touch the shape, each once and no other cell, and from then on nothing. -/
theorem refines_scan {t : RangeTests} (h : t.IsSound) (r : CellRange) :
    ∃ cells : List Cell,
      (∀ n, (producer t).ask (start r) n = cells[n]?) ∧
      cells.Perm (r.scan.filter t.touches) ∧
      cells.Nodup ∧
      ∀ c, c ∈ cells ↔ r.Holds c ∧ t.touches c = true := by
  have hperm := RangeTests.perm_found h r
  refine ⟨t.found [r], fun n => ?_, hperm, ?_, fun c => ?_⟩
  · rw [Producer.ask_eq_getElem?]
    exact congrArg (·[n]?) (left_start t r)
  · exact hperm.nodup_iff.2 (r.nodup_scan.filter _)
  · rw [hperm.mem_iff, List.mem_filter, CellRange.mem_scan]

/-- Cells east of the central meridian, in a range around the origin. -/
theorem refines_scan_east :
    let t : RangeTests := {
      inReach := fun q => decide (0 < q.east)
      isWithin := fun q => decide (0 ≤ q.west)
      isNear := fun q => decide (0 < q.east)
      touches := fun c => decide (0 ≤ c.ti) }
    t.IsSound ∧ ∃ cells : List Cell,
      (∀ n, (producer t).ask (start ⟨-5, -1, 6, 2⟩) n = cells[n]?) ∧
      cells.Perm (CellRange.scan ⟨-5, -1, 6, 2⟩ |>.filter t.touches) ∧
      cells.Nodup ∧
      ∀ c, c ∈ cells ↔ CellRange.Holds ⟨-5, -1, 6, 2⟩ c ∧ t.touches c = true := by
  intro t
  have hsound : t.IsSound := by
    refine ⟨?_, ?_, ?_⟩ <;>
      · intro q c hq hc
        simp only [t, CellRange.Holds, decide_eq_true_eq, decide_eq_false_iff_not] at *
        omega
  exact ⟨hsound, refines_scan hsound ⟨-5, -1, 6, 2⟩⟩

end Walk
end UtmTiles
