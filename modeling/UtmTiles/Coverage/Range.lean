import UtmTiles.Producer

/-!
# Ranges of cells

A range is a rectangle of lattice cells. A range is gone through row by row from south to north, and
from west to east within a row: `CellRange.scan` is the list of its cells in this order, and a
`RangeCursor` hands them out. `CellRange.parts` cuts a range into halves or quarters.
-/

namespace UtmTiles

/-- Place of a cell in the lattice of a zone. -/
structure Cell where
  /-- Cells eastwards from the central meridian. -/
  ti : Int
  /-- Cells northwards from the equator. -/
  tj : Int
  deriving DecidableEq, Repr, Hashable

/-- The cells with `west ≤ ti < east` and `south ≤ tj < north`. -/
structure CellRange where
  west : Int
  south : Int
  east : Int
  north : Int
  deriving DecidableEq, Repr

def Cell.range (c : Cell) : CellRange := ⟨c.ti, c.tj, c.ti + 1, c.tj + 1⟩

namespace CellRange

/-- Cells in a row; a range whose bounds are in the wrong order has a negative width. -/
def width (r : CellRange) : Int := r.east - r.west

/-- Number of rows; a range whose bounds are in the wrong order has a negative height. -/
def height (r : CellRange) : Int := r.north - r.south

def Holds (r : CellRange) (c : Cell) : Prop :=
  r.west ≤ c.ti ∧ c.ti < r.east ∧ r.south ≤ c.tj ∧ c.tj < r.north

instance (r : CellRange) (c : Cell) : Decidable (r.Holds c) :=
  inferInstanceAs (Decidable (_ ∧ _ ∧ _ ∧ _))

def IsEmpty (r : CellRange) : Prop := r.width ≤ 0 ∨ r.height ≤ 0

instance (r : CellRange) : Decidable r.IsEmpty := inferInstanceAs (Decidable (_ ∨ _))

/-- Some cells of a row, from a cell eastwards. -/
def rowFrom : Cell → Nat → List Cell
  | _, 0 => []
  | c, count + 1 => c :: rowFrom ⟨c.ti + 1, c.tj⟩ count

/-- Some whole rows of the range, from a row northwards. -/
def rowsFrom (r : CellRange) : Int → Nat → List Cell
  | _, 0 => []
  | tj, count + 1 => rowFrom ⟨r.west, tj⟩ r.width.toNat ++ r.rowsFrom (tj + 1) count

def scan (r : CellRange) : List Cell := r.rowsFrom r.south r.height.toNat

/-- The index that halves a range's rows. -/
def middleTi (r : CellRange) : Int := (r.west + r.east) / 2

/-- The index that halves a range's columns. -/
def middleTj (r : CellRange) : Int := (r.south + r.north) / 2

/-- The halves of a range of one row or one column, and the quarters of any other range, in the
order in which they are gone through. -/
def parts (r : CellRange) : List CellRange :=
  if r.height ≤ 1 then [{ r with west := r.middleTi }, { r with east := r.middleTi }]
  else if r.width ≤ 1 then [{ r with south := r.middleTj }, { r with north := r.middleTj }]
  else
    [{ r with west := r.middleTi, north := r.middleTj },
     { r with east := r.middleTi, north := r.middleTj },
     { r with west := r.middleTi, south := r.middleTj },
     { r with east := r.middleTi, south := r.middleTj }]

end CellRange

/-! ### Going through a range -/

/-- A place in a range whose cells are gone through. -/
structure RangeCursor where
  range : CellRange
  /-- The next cell. -/
  cell : Cell

def CellRange.cursor (r : CellRange) : RangeCursor := ⟨r, ⟨r.west, r.south⟩⟩

namespace RangeCursor

def IsAtEnd (s : RangeCursor) : Prop := s.range.IsEmpty ∨ s.range.north ≤ s.cell.tj

instance (s : RangeCursor) : Decidable s.IsAtEnd := inferInstanceAs (Decidable (_ ∨ _))

/-- The place of the cell that follows: further east, or at the start of the next row. -/
def advanced (s : RangeCursor) : RangeCursor :=
  if s.cell.ti < s.range.east - 1 then { s with cell := ⟨s.cell.ti + 1, s.cell.tj⟩ }
  else { s with cell := ⟨s.range.west, s.cell.tj + 1⟩ }

/-- The next cell and the place after it. -/
def next (s : RangeCursor) : Option Cell × RangeCursor :=
  if s.IsAtEnd then (none, s) else (some s.cell, s.advanced)

/-- The cells still to be gone through: the rest of a row and the rows north of it. -/
def left (s : RangeCursor) : List Cell :=
  if s.IsAtEnd then []
  else CellRange.rowFrom s.cell (max (s.range.east - s.cell.ti) 1).toNat ++
    s.range.rowsFrom (s.cell.tj + 1) (s.range.north - (s.cell.tj + 1)).toNat

theorem left_of_isAtEnd {s : RangeCursor} (h : s.IsAtEnd) : s.left = [] := if_pos h

theorem left_of_not_isAtEnd {s : RangeCursor} (h : ¬ s.IsAtEnd) :
    s.left = CellRange.rowFrom s.cell (max (s.range.east - s.cell.ti) 1).toNat ++
      s.range.rowsFrom (s.cell.tj + 1) (s.range.north - (s.cell.tj + 1)).toNat := if_neg h

theorem left_eq_cons {s : RangeCursor} (h : ¬ s.IsAtEnd) : s.left = s.cell :: s.advanced.left := by
  obtain ⟨r, ⟨ti, tj⟩⟩ := s
  have hempty : ¬ r.IsEmpty := fun he => h (Or.inl he)
  have hwidth : r.west < r.east := by
    simp only [CellRange.IsEmpty, CellRange.width] at hempty
    omega
  rw [left_of_not_isAtEnd h, advanced]
  by_cases hlast : ti < r.east - 1
  · -- the row goes on at the cell further east
    have hcount : (max (r.east - ti) 1).toNat = (max (r.east - (ti + 1)) 1).toNat + 1 := by omega
    have hmore : ¬ IsAtEnd ⟨r, ⟨ti + 1, tj⟩⟩ := h
    rw [if_pos hlast, left_of_not_isAtEnd hmore]
    simp only [hcount, CellRange.rowFrom, List.cons_append]
  · -- the row ends here, and whole rows are left
    have hcount : (max (r.east - ti) 1).toNat = 0 + 1 := by omega
    rw [if_neg hlast]
    simp only [hcount, CellRange.rowFrom, List.cons_append, List.nil_append]
    by_cases hnorth : r.north ≤ tj + 1
    · have hrows : (r.north - (tj + 1)).toNat = 0 := by omega
      rw [left_of_isAtEnd (Or.inr hnorth), hrows, CellRange.rowsFrom]
    · have hrows : (r.north - (tj + 1)).toNat = (r.north - (tj + 1 + 1)).toNat + 1 := by omega
      have hcells : (max (r.east - r.west) 1).toNat = r.width.toNat := by
        simp only [CellRange.width]
        omega
      have hmore : ¬ IsAtEnd ⟨r, ⟨r.west, tj + 1⟩⟩ := not_or.2 ⟨hempty, hnorth⟩
      rw [left_of_not_isAtEnd hmore, hrows, CellRange.rowsFrom]
      simp only [hcells]

theorem next_fst (s : RangeCursor) : s.next.1 = s.left.head? := by
  by_cases h : s.IsAtEnd
  · rw [next, if_pos h, left_of_isAtEnd h, List.head?_nil]
  · rw [next, if_neg h, left_eq_cons h, List.head?_cons]

theorem left_next (s : RangeCursor) : s.next.2.left = s.left.tail := by
  by_cases h : s.IsAtEnd
  · rw [next, if_pos h, left_of_isAtEnd h, List.tail_nil]
  · rw [next, if_neg h, left_eq_cons h, List.tail_cons]

def producer : Producer RangeCursor Cell where
  next := next
  left := left
  next_fst := next_fst
  left_next := left_next

end RangeCursor

namespace CellRange

/-- All cells, row by row, when they are asked for. -/
def cells (r : CellRange) : Sequence Cell := RangeCursor.producer.elements r.cursor

theorem rowsFrom_of_width {r : CellRange} (h : r.width ≤ 0) (tj : Int) (count : Nat) :
    r.rowsFrom tj count = [] := by
  induction count generalizing tj with
  | zero => rfl
  | succ count ih => rw [rowsFrom, ih, Int.toNat_of_nonpos h, rowFrom, List.append_nil]

theorem scan_of_isEmpty {r : CellRange} (h : r.IsEmpty) : r.scan = [] := by
  rcases h with hwidth | hheight
  · exact rowsFrom_of_width hwidth _ _
  · rw [scan, Int.toNat_of_nonpos hheight, rowsFrom]

/-- From its first cell on, a range is gone through as it is scanned. -/
theorem left_cursor (r : CellRange) : r.cursor.left = r.scan := by
  by_cases hempty : r.IsEmpty
  · rw [RangeCursor.left_of_isAtEnd (Or.inl hempty), scan_of_isEmpty hempty]
  · have hsides : r.west < r.east ∧ r.south < r.north := by
      simp only [IsEmpty, width, height] at hempty
      omega
    have hmore : ¬ r.cursor.IsAtEnd := not_or.2 ⟨hempty, by simp only [cursor]; omega⟩
    have hcount : (max (r.east - r.west) 1).toNat = r.width.toNat := by
      simp only [width]
      omega
    have hrows : r.height.toNat = (r.north - (r.south + 1)).toNat + 1 := by
      simp only [height]
      omega
    rw [RangeCursor.left_of_not_isAtEnd hmore, scan, hrows, rowsFrom]
    simp only [cursor, hcount]

@[simp] theorem toList_cells (r : CellRange) : r.cells.toList = r.scan := by
  rw [cells, Producer.toList_elements]
  exact r.left_cursor

end CellRange
end UtmTiles
