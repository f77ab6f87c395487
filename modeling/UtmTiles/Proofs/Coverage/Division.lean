import Mathlib.Algebra.Order.Ring.Int
import UtmTiles.Proofs.Coverage.Visits

/-!
# Dividing and going through a range

The parts of a range of more than one cell are ranges with cells, no two of them have a cell in
common, and each has fewer cells than the range (`isPartOf_of_mem_parts`, `pairwise_parts`). The
cells of a range are handed out in rows: the cell with number `n` is found by dividing `n` by the
width (`getElem?_scan`). On the way no index leaves the bounds of the range
(`RangeCursor.isWithin_after`), so that an index has as many bits as the bounds have.
-/

namespace UtmTiles
namespace CellRange

/-! ## Parts -/

/-- The range has cells, lies within another one and has fewer cells. -/
structure IsPartOf (p r : CellRange) : Prop where
  width_pos : 0 < p.width
  height_pos : 0 < p.height
  west : r.west ≤ p.west
  east : p.east ≤ r.east
  south : r.south ≤ p.south
  north : p.north ≤ r.north
  smaller : p.width * p.height < r.width * r.height

/-- A range within another one is smaller if one of its sides is shorter. -/
theorem isPartOf_of_shorter {p r : CellRange} (hwidth : 0 < p.width) (hheight : 0 < p.height)
    (hwest : r.west ≤ p.west) (heast : p.east ≤ r.east) (hsouth : r.south ≤ p.south)
    (hnorth : p.north ≤ r.north) (hshorter : p.width < r.width ∨ p.height < r.height) :
    p.IsPartOf r := by
  refine ⟨hwidth, hheight, hwest, heast, hsouth, hnorth, ?_⟩
  have hcolumns : p.width ≤ r.width := by
    simp only [width]
    omega
  have hrows : p.height ≤ r.height := by
    simp only [height]
    omega
  rcases hshorter with hlt | hlt
  · exact Int.mul_lt_mul hlt hrows hheight (hwidth.le.trans hcolumns)
  · exact Int.mul_lt_mul' hcolumns hlt hheight.le (hwidth.trans_le hcolumns)

theorem IsPartOf.trans {p q r : CellRange} (hp : p.IsPartOf q) (hq : q.IsPartOf r) :
    p.IsPartOf r where
  width_pos := hp.width_pos
  height_pos := hp.height_pos
  west := hq.west.trans hp.west
  east := hp.east.trans hq.east
  south := hq.south.trans hp.south
  north := hp.north.trans hq.north
  smaller := hp.smaller.trans hq.smaller

theorem isPartOf_eastern_half {r : CellRange} (hwidth : 1 < r.width) (hheight : 0 < r.height) :
    IsPartOf { r with west := r.middleTi } r := by
  simp only [width, height] at hwidth hheight
  apply isPartOf_of_shorter <;> simp only [width, height, middleTi] <;> omega

theorem isPartOf_western_half {r : CellRange} (hwidth : 1 < r.width) (hheight : 0 < r.height) :
    IsPartOf { r with east := r.middleTi } r := by
  simp only [width, height] at hwidth hheight
  apply isPartOf_of_shorter <;> simp only [width, height, middleTi] <;> omega

theorem isPartOf_northern_half {r : CellRange} (hwidth : 0 < r.width) (hheight : 1 < r.height) :
    IsPartOf { r with south := r.middleTj } r := by
  simp only [width, height] at hwidth hheight
  apply isPartOf_of_shorter <;> simp only [width, height, middleTj] <;> omega

theorem isPartOf_southern_half {r : CellRange} (hwidth : 0 < r.width) (hheight : 1 < r.height) :
    IsPartOf { r with north := r.middleTj } r := by
  simp only [width, height] at hwidth hheight
  apply isPartOf_of_shorter <;> simp only [width, height, middleTj] <;> omega

theorem isPartOf_of_mem_parts {r p : CellRange} (hwidth : 0 < r.width) (hheight : 0 < r.height)
    (hcells : 1 < r.width ∨ 1 < r.height) (hp : p ∈ r.parts) : p.IsPartOf r := by
  unfold parts at hp
  split at hp
  · next hrow =>
    have hcolumns : 1 < r.width := hcells.resolve_right (Int.not_lt.2 hrow)
    simp only [List.mem_cons, List.not_mem_nil, or_false] at hp
    rcases hp with rfl | rfl
    · exact isPartOf_eastern_half hcolumns hheight
    · exact isPartOf_western_half hcolumns hheight
  · next hrow =>
    have hrows : 1 < r.height := Int.not_le.1 hrow
    split at hp
    · simp only [List.mem_cons, List.not_mem_nil, or_false] at hp
      rcases hp with rfl | rfl
      · exact isPartOf_northern_half hwidth hrows
      · exact isPartOf_southern_half hwidth hrows
    · next hcolumn =>
      -- quarters are the halves of both halves
      have hcolumns : 1 < r.width := Int.not_le.1 hcolumn
      have hnorth := isPartOf_northern_half hwidth hrows
      have hsouth := isPartOf_southern_half hwidth hrows
      simp only [List.mem_cons, List.not_mem_nil, or_false] at hp
      rcases hp with rfl | rfl | rfl | rfl
      · exact (isPartOf_eastern_half (r := { r with north := r.middleTj }) hcolumns
          hsouth.height_pos).trans hsouth
      · exact (isPartOf_western_half (r := { r with north := r.middleTj }) hcolumns
          hsouth.height_pos).trans hsouth
      · exact (isPartOf_eastern_half (r := { r with south := r.middleTj }) hcolumns
          hnorth.height_pos).trans hnorth
      · exact (isPartOf_western_half (r := { r with south := r.middleTj }) hcolumns
          hnorth.height_pos).trans hnorth

theorem parts_ne_nil (r : CellRange) : r.parts ≠ [] := by
  unfold parts
  split
  · exact List.cons_ne_nil _ _
  · split <;> exact List.cons_ne_nil _ _

/-- Ranges of which no cell lies in two have no cell in common. -/
theorem pairwise_of_countP_le_one {rs : List CellRange}
    (h : ∀ c, rs.countP (fun q => decide (q.Holds c)) ≤ 1) :
    rs.Pairwise fun p q => ∀ c, ¬ (p.Holds c ∧ q.Holds c) := by
  induction rs with
  | nil => exact List.Pairwise.nil
  | cons p rest ih =>
    simp only [List.countP_cons] at h
    refine List.pairwise_cons.2 ⟨?_, ih fun c => (Nat.le_add_right _ _).trans (h c)⟩
    rintro q hq c ⟨hp, hc⟩
    have hcount := h c
    have hrest : 0 < rest.countP fun q => decide (q.Holds c) :=
      List.countP_pos_iff.2 ⟨q, hq, decide_eq_true hc⟩
    rw [if_pos (decide_eq_true hp)] at hcount
    omega

/-- No cell lies in two parts. -/
theorem pairwise_parts (r : CellRange) :
    r.parts.Pairwise fun p q => ∀ c, ¬ (p.Holds c ∧ q.Holds c) := by
  refine pairwise_of_countP_le_one fun c => ?_
  rw [countP_parts]
  split <;> decide

theorem holds_iff_exists_part {r : CellRange} {c : Cell} :
    r.Holds c ↔ ∃ p ∈ r.parts, p.Holds c :=
  ⟨fun hc => (existsUnique_part hc).exists, fun ⟨_, hp, hc⟩ => holds_of_mem_parts hp hc⟩

/-! ## Cells by number -/

theorem getElem?_rowFrom (c : Cell) (count n : ℕ) :
    (rowFrom c count)[n]? = if n < count then some ⟨c.ti + n, c.tj⟩ else none := by
  induction count generalizing c n with
  | zero => rfl
  | succ count ih =>
    cases n with
    | zero =>
      rw [rowFrom, List.getElem?_cons_zero, if_pos (Nat.succ_pos count), Nat.cast_zero, add_zero]
    | succ n =>
      rw [rowFrom, List.getElem?_cons_succ, ih]
      simp only [Nat.succ_lt_succ_iff, Nat.cast_succ, add_assoc, add_comm (1 : ℤ)]

theorem getElem?_rowsFrom (r : CellRange) (tj : ℤ) (count n : ℕ) :
    (r.rowsFrom tj count)[n]? = if n < count * r.width.toNat then
      some ⟨r.west + (n % r.width.toNat : ℕ), tj + (n / r.width.toNat : ℕ)⟩ else none := by
  induction count generalizing tj n with
  | zero =>
    rw [rowsFrom, List.getElem?_nil, Nat.zero_mul, if_neg (Nat.not_lt_zero n)]
  | succ count ih =>
    rw [rowsFrom, List.getElem?_append, length_rowFrom, getElem?_rowFrom, ih, Nat.succ_mul]
    by_cases hrow : n < r.width.toNat
    · rw [if_pos hrow, if_pos hrow, if_pos (by omega), Nat.mod_eq_of_lt hrow,
        Nat.div_eq_of_lt hrow, Nat.cast_zero, add_zero]
    · -- further rows are numbered from the next one on
      obtain ⟨k, rfl⟩ := Nat.exists_eq_add_of_le (Nat.le_of_not_lt hrow)
      rw [if_neg hrow, Nat.add_sub_cancel_left, Nat.add_mod_left]
      by_cases hk : k < count * r.width.toNat
      · have hwidth : 0 < r.width.toNat := Nat.pos_of_mul_pos_left (Nat.zero_lt_of_lt hk)
        rw [if_pos hk, if_pos (by omega), Nat.add_div_left _ hwidth, Nat.cast_succ, add_assoc,
          add_comm (1 : ℤ)]
      · rw [if_neg hk, if_neg (by omega)]

/-- A range is scanned row by row. -/
theorem getElem?_scan (r : CellRange) (n : ℕ) :
    r.scan[n]? = if n < r.height.toNat * r.width.toNat then
      some ⟨r.west + (n % r.width.toNat : ℕ), r.south + (n / r.width.toNat : ℕ)⟩ else none :=
  r.getElem?_rowsFrom _ _ _

theorem ask_cursor (r : CellRange) (n : ℕ) :
    RangeCursor.producer.ask r.cursor n = r.scan[n]? := by
  rw [Producer.ask_eq_getElem?]
  exact congrArg (·[n]?) r.left_cursor

/-- A cell of the range has one number. -/
theorem existsUnique_getElem?_scan {r : CellRange} {c : Cell} (hc : r.Holds c) :
    ∃! n : ℕ, r.scan[n]? = some c := by
  obtain ⟨n, hn⟩ := List.mem_iff_getElem?.1 (mem_scan.2 hc)
  refine ⟨n, hn, fun m hm => ?_⟩
  obtain ⟨hlt, -⟩ := List.getElem?_eq_some_iff.1 hm
  exact (List.getElem?_inj hlt r.nodup_scan).1 (hm.trans hn.symm)

end CellRange

/-! ## Indices on the way -/

/-- The cell lies in the range or, after the last cell, at the start of the row north of it. -/
structure RangeCursor.IsWithin (s : RangeCursor) (r : CellRange) : Prop where
  range : s.range = r
  west : r.west ≤ s.cell.ti
  east : s.cell.ti ≤ max r.west (r.east - 1)
  south : r.south ≤ s.cell.tj
  north : s.cell.tj ≤ max r.south r.north

namespace RangeCursor

theorem isWithin_cursor (r : CellRange) : r.cursor.IsWithin r :=
  ⟨rfl, le_rfl, le_max_left _ _, le_rfl, le_max_left _ _⟩

theorem IsWithin.next {s : RangeCursor} {r : CellRange} (h : s.IsWithin r) :
    s.next.2.IsWithin r := by
  obtain ⟨range, ⟨ti, tj⟩⟩ := s
  obtain ⟨rfl, hwest, heast, hsouth, hnorth⟩ := h
  unfold RangeCursor.next
  split
  · exact ⟨rfl, hwest, heast, hsouth, hnorth⟩
  · next hmore =>
    simp only [IsAtEnd, CellRange.IsEmpty, CellRange.width, CellRange.height] at hmore
    unfold advanced
    simp only at hwest heast hsouth hnorth ⊢
    split
    · refine ⟨rfl, ?_, ?_, hsouth, hnorth⟩ <;> simp only <;> omega
    · refine ⟨rfl, ?_, ?_, ?_, ?_⟩ <;> simp only <;> omega

theorem isWithin_after {s : RangeCursor} {r : CellRange} (h : s.IsWithin r) (n : ℕ) :
    (producer.after s n).IsWithin r := by
  induction n generalizing s with
  | zero => exact h
  | succ n ih => exact ih h.next

end RangeCursor

namespace CellRange

/-- The parts of a range of more than one cell are ranges with cells, each with fewer of them than
the range. No cell lies in two parts, and together they have just the cells of the range. Any range
is gone through row by row, from south to north and from west to east: the cells are numbered that
way, each has one number, and from their end on there are none; in an empty range there is none at
all. No index on the way leaves the bounds of the range. -/
theorem shared_by_parts_and_gone_through (r : CellRange) :
    (0 < r.width → 0 < r.height → (1 < r.width ∨ 1 < r.height) →
      r.parts ≠ [] ∧ (∀ p ∈ r.parts, p.IsPartOf r) ∧
      (r.parts.Pairwise fun p q => ∀ c, ¬ (p.Holds c ∧ q.Holds c)) ∧
      ∀ c, r.Holds c ↔ ∃ p ∈ r.parts, p.Holds c) ∧
    (∀ n, RangeCursor.producer.ask r.cursor n =
      if n < r.height.toNat * r.width.toNat then
        some ⟨r.west + (n % r.width.toNat : ℕ), r.south + (n / r.width.toNat : ℕ)⟩
      else none) ∧
    (∀ c, if r.Holds c then ∃! n, RangeCursor.producer.ask r.cursor n = some c
      else ∀ n, RangeCursor.producer.ask r.cursor n ≠ some c) ∧
    (r.IsEmpty → ∀ n, RangeCursor.producer.ask r.cursor n = none) ∧
    ∀ n, (RangeCursor.producer.after r.cursor n).IsWithin r := by
  simp only [ask_cursor]
  refine ⟨fun hwidth hheight hcells => ?_, r.getElem?_scan, fun c => ?_, fun hempty n => ?_,
    RangeCursor.isWithin_after (RangeCursor.isWithin_cursor r)⟩
  · exact ⟨r.parts_ne_nil, fun p hp => isPartOf_of_mem_parts hwidth hheight hcells hp,
      r.pairwise_parts, fun c => holds_iff_exists_part⟩
  · split
    · next hc => exact existsUnique_getElem?_scan hc
    · next hc => exact fun n hn => hc (mem_scan.1 (List.mem_of_getElem? hn))
  · rw [scan_of_isEmpty hempty, List.getElem?_nil]

/-- A row of four cells around the central meridian. -/
theorem shared_by_parts_and_gone_through_of_row :
    (∀ p ∈ [(⟨-1, 10, 1, 11⟩ : CellRange), ⟨-3, 10, -1, 11⟩], p.IsPartOf ⟨-3, 10, 1, 11⟩) ∧
      RangeCursor.producer.ask (cursor ⟨-3, 10, 1, 11⟩) 3 = some ⟨0, 10⟩ := by
  obtain ⟨hparts, hcells, -⟩ := shared_by_parts_and_gone_through ⟨-3, 10, 1, 11⟩
  exact ⟨(hparts (by decide) (by decide) (Or.inl (by decide))).2.1, hcells 3⟩

end CellRange
end UtmTiles
