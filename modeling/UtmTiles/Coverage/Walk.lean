import UtmTiles.Coverage.Range

/-!
# Walking through a range

A walk finds the cells of a range that touch a shape without testing every cell. A range is left out
if the shape is out of its reach, taken as a whole if it lies within the shape, cut into parts if it
is large, and tested cell by cell if it is small.

A walk knows the shape by the answers of four tests only (`RangeTests`). Its state are the ranges
still to be visited, the cells that passed their test and the range that is taken as a whole
(`Walk`). `RangeTests.found` lists what the ranges give in the order of the visits, and
`Walk.left_next` says that a walk hands out just that. Whatever the tests answer, a walk comes to an
end, because the ranges to be visited get smaller: `backlog` says how.
-/

namespace UtmTiles

/-- What a walk asks about a shape. -/
structure RangeTests where
  /-- The range reaches into the zone at all. -/
  inReach : CellRange → Bool
  /-- The range lies within the shape. -/
  isWithin : CellRange → Bool
  /-- The range may touch the shape. -/
  isNear : CellRange → Bool
  /-- The cell touches the shape. -/
  touches : Cell → Bool

namespace CellRange

/-- Up to this width and height the cells of a range are tested one by one. -/
def smallSide : Int := 3

/-- A range whose cells are tested one by one. -/
def IsSmall (r : CellRange) : Prop := r.width ≤ smallSide ∧ r.height ≤ smallSide

instance (r : CellRange) : Decidable r.IsSmall := inferInstanceAs (Decidable (_ ∧ _))

/-- A bound on the number of visits that a range takes. -/
def weight (r : CellRange) : Nat := 2 * (max r.width 1).toNat * (max r.height 1).toNat - 1

end CellRange

/-- What becomes of a range. -/
inductive Visit where
  /-- None of its cells touches the shape. -/
  | skipped
  /-- These of its cells touch the shape. -/
  | tested (cells : List Cell)
  /-- All of its cells touch the shape. -/
  | accepted
  /-- Its parts are to be visited. -/
  | divided

namespace RangeTests

def visit (t : RangeTests) (r : CellRange) : Visit :=
  if !t.inReach r then .skipped
  else if r.IsSmall then .tested (r.cells.toList.filter t.touches)
  else if t.isWithin r then .accepted
  else if t.isNear r then .divided
  else .skipped

/-- Only a range that is not small is divided. -/
theorem not_isSmall_of_visit {t : RangeTests} {r : CellRange} (h : t.visit r = .divided) :
    ¬ r.IsSmall := by
  unfold visit at h
  grind

end RangeTests

namespace CellRange

/-- A bound on the number of visits that some ranges take. -/
def backlog : List CellRange → Nat
  | [] => 0
  | r :: rs => r.weight + backlog rs

theorem backlog_cons (r : CellRange) (rs : List CellRange) :
    backlog (r :: rs) = r.weight + backlog rs := rfl

theorem backlog_append (rs ss : List CellRange) : backlog (rs ++ ss) = backlog rs + backlog ss := by
  induction rs with
  | nil => exact (Nat.zero_add _).symm
  | cons r rs ih => rw [List.cons_append, backlog_cons, backlog_cons, ih, Nat.add_assoc]

theorem weight_pos (r : CellRange) : 0 < r.weight := by
  unfold weight
  have h : 0 < (max r.width 1).toNat * (max r.height 1).toNat := Nat.mul_pos (by omega) (by omega)
  rw [Nat.mul_assoc]
  omega

/-- The weight in terms of the sides as they count for it. -/
theorem weight_eq {west south east north : Int} (w h : Nat) (hw : max (east - west) 1 = w)
    (hh : max (north - south) 1 = h) : weight ⟨west, south, east, north⟩ = 2 * (w * h) - 1 := by
  rw [weight, width, height, hw, hh, Int.toNat_natCast, Int.toNat_natCast, Nat.mul_assoc]

theorem backlog_parts_lt {r : CellRange} (h : ¬ r.IsSmall) : backlog r.parts < r.weight := by
  obtain ⟨west, south, east, north⟩ := r
  have hside : 3 < east - west ∨ 3 < north - south := by
    simp only [IsSmall, smallSide, width, height] at h
    omega
  simp only [parts, height, width, middleTi, middleTj]
  obtain ⟨x, hx⟩ : ∃ x, x = (west + east) / 2 := ⟨_, rfl⟩
  obtain ⟨y, hy⟩ : ∃ y, y = (south + north) / 2 := ⟨_, rfl⟩
  simp only [← hx, ← hy]
  -- widths and heights of the halves, as they count for a weight
  obtain ⟨a, ha⟩ : ∃ a : Nat, max (east - x) 1 = a := ⟨(max (east - x) 1).toNat, by omega⟩
  obtain ⟨b, hb⟩ : ∃ b : Nat, max (x - west) 1 = b := ⟨(max (x - west) 1).toNat, by omega⟩
  obtain ⟨c, hc⟩ : ∃ c : Nat, max (north - y) 1 = c := ⟨(max (north - y) 1).toNat, by omega⟩
  obtain ⟨d, hd⟩ : ∃ d : Nat, max (y - south) 1 = d := ⟨(max (y - south) 1).toNat, by omega⟩
  split
  · next hrow =>
    have one : max (north - south) 1 = (1 : Nat) := by omega
    rw [backlog_cons, backlog_cons, weight_eq a 1 ha one, weight_eq b 1 hb one,
      weight_eq (a + b) 1 (by omega) one]
    simp only [backlog]
    omega
  · split
    · next hcolumn =>
      have one : max (east - west) 1 = (1 : Nat) := by omega
      rw [backlog_cons, backlog_cons, weight_eq 1 c one hc, weight_eq 1 d one hd,
        weight_eq 1 (c + d) one (by omega)]
      simp only [backlog]
      omega
    · have sum : a * d + b * d + a * c + b * c = (a + b) * (c + d) := by
        simp only [Nat.add_mul, Nat.mul_add]
        omega
      have had : 0 < a * d := Nat.mul_pos (by omega) (by omega)
      have hbd : 0 < b * d := Nat.mul_pos (by omega) (by omega)
      have hac : 0 < a * c := Nat.mul_pos (by omega) (by omega)
      have hbc : 0 < b * c := Nat.mul_pos (by omega) (by omega)
      simp only [backlog_cons]
      rw [weight_eq a d ha hd, weight_eq b d hb hd, weight_eq a c ha hc, weight_eq b c hb hc,
        weight_eq (a + b) (c + d) (by omega) (by omega)]
      simp only [backlog]
      omega

end CellRange

namespace RangeTests

open CellRange (backlog backlog_cons backlog_append backlog_parts_lt weight_pos)

/-- What the visits of some ranges give, range after range. -/
def found (t : RangeTests) : List CellRange → List Cell
  | [] => []
  | r :: rest =>
    match _h : t.visit r with
    | .skipped => t.found rest
    | .tested cells => cells ++ t.found rest
    | .accepted => r.scan ++ t.found rest
    | .divided => t.found (r.parts ++ rest)
termination_by rs => backlog rs
decreasing_by
  -- a visit takes the range away or puts parts in its place that weigh less
  all_goals simp only [backlog_cons, backlog_append]
  all_goals have := weight_pos r
  all_goals first
    | omega
    | have := backlog_parts_lt (RangeTests.not_isSmall_of_visit _h); omega

theorem found_nil (t : RangeTests) : t.found [] = [] := by rw [found]

/-- What a visit gives comes before what the remaining ranges give. -/
theorem found_cons (t : RangeTests) (r : CellRange) (rest : List CellRange) :
    t.found (r :: rest) = match t.visit r with
      | .skipped => t.found rest
      | .tested cells => cells ++ t.found rest
      | .accepted => r.scan ++ t.found rest
      | .divided => t.found (r.parts ++ rest) := by
  rw [found]
  split <;> simp only [*]

end RangeTests

/-- A walk under way. -/
structure Walk where
  /-- The ranges to be visited, the next one first. -/
  ranges : List CellRange
  /-- Cells that passed their test, the next one first. -/
  checked : List Cell
  /-- The place in a range that is taken as a whole. -/
  accepted : Option RangeCursor

namespace Walk

open CellRange (backlog backlog_cons backlog_append backlog_parts_lt weight_pos)

def start (r : CellRange) : Walk := ⟨[r], [], none⟩

/-- The walk after a range has been visited, from the ranges that remain. -/
def visited (t : RangeTests) (r : CellRange) (rest : List CellRange) : Walk :=
  match t.visit r with
  | .skipped => ⟨rest, [], none⟩
  | .tested cells => ⟨rest, cells, none⟩
  | .accepted => ⟨rest, [], some r.cursor⟩
  | .divided => ⟨r.parts ++ rest, [], none⟩

theorem backlog_visited_lt (t : RangeTests) (r : CellRange) (rest : List CellRange) :
    backlog (visited t r rest).ranges < backlog (r :: rest) := by
  have hpos := weight_pos r
  unfold visited
  split
  case h_4 h =>
    have hparts := backlog_parts_lt (RangeTests.not_isSmall_of_visit h)
    simp only [backlog_cons, backlog_append]
    omega
  all_goals
    simp only [backlog_cons]
    omega

/-- The next cell and the walk after it: a checked cell, else one of the accepted range, else what
visiting further ranges gives. -/
def next (t : RangeTests) (w : Walk) : Option Cell × Walk :=
  match w.checked with
  | c :: checked => (some c, { w with checked })
  | [] =>
    match w.accepted.map RangeCursor.next with
    | some (some c, cursor) => (some c, { w with accepted := some cursor })
    -- nothing is ready, so the next range has its visit
    | _ =>
      match _h : w.ranges with
      | [] => (none, ⟨[], [], none⟩)
      | r :: rest => next t (visited t r rest)
termination_by backlog w.ranges
decreasing_by
  rw [_h]
  exact backlog_visited_lt t r rest

/-- The cells that a walk has still to give. -/
def left (t : RangeTests) (w : Walk) : List Cell :=
  w.checked ++ (w.accepted.elim [] RangeCursor.left ++ t.found w.ranges)

/-- A visit only moves cells from the ranges to the places they are handed out from. -/
theorem left_visited (t : RangeTests) (r : CellRange) (rest : List CellRange) :
    (visited t r rest).left t = t.found (r :: rest) := by
  rw [RangeTests.found_cons, visited]
  cases t.visit r with
  | skipped => rfl
  | tested cells => rfl
  | accepted => simp only [left, Option.elim_some, CellRange.left_cursor, List.nil_append]
  | divided => rfl

/-- An accepted range that hands out nothing more is used up. -/
theorem elim_left_of_end {accepted : Option RangeCursor}
    (h : ∀ c cursor, accepted.map RangeCursor.next = some (some c, cursor) → False) :
    accepted.elim [] RangeCursor.left = [] := by
  cases accepted with
  | none => rfl
  | some cursor =>
    have hnone : cursor.next.1 = none := by
      cases hnext : cursor.next.1 with
      | none => rfl
      | some c => exact (h c cursor.next.2 (congrArg some (Prod.ext hnext rfl))).elim
    rw [RangeCursor.next_fst] at hnone
    exact List.head?_eq_none_iff.1 hnone

/-- A call hands out the first of the cells that are left, and leaves the others. -/
theorem next_law (t : RangeTests) (w : Walk) :
    (next t w).1 = (w.left t).head? ∧ (next t w).2.left t = (w.left t).tail := by
  fun_induction next t w with
  | case1 w c checked hchecked =>
    simp only [left, hchecked, List.cons_append, List.head?_cons, List.tail_cons, and_self]
  | case2 w hchecked c cursor haccepted =>
    obtain ⟨before, hbefore, hnext⟩ := Option.map_eq_some_iff.1 haccepted
    have hleft : before.left = c :: cursor.left := RangeCursor.producer.left_of_next hnext
    simp only [left, hchecked, hbefore, hleft, Option.elim_some, List.nil_append, List.cons_append,
      List.head?_cons, List.tail_cons, and_self]
  | case3 w hchecked hranges haccepted =>
    have hleft : w.left t = [] := by
      simp only [left, hchecked, elim_left_of_end haccepted, hranges, RangeTests.found_nil,
        List.append_nil]
    rw [hleft]
    exact ⟨rfl, RangeTests.found_nil t⟩
  | case4 w hchecked r rest hranges haccepted ih =>
    have hleft : w.left t = (visited t r rest).left t := by
      rw [left_visited]
      simp only [left, hchecked, elim_left_of_end haccepted, hranges, List.nil_append]
    rw [hleft]
    exact ih

def producer (t : RangeTests) : Producer Walk Cell where
  next := next t
  left := left t
  next_fst w := (next_law t w).1
  left_next w := (next_law t w).2

end Walk
end UtmTiles
