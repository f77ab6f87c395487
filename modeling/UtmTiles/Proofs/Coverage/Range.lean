import UtmTiles.Coverage.Range
import Mathlib.Data.List.Count
import Mathlib.Data.List.Nodup
import Mathlib.Data.List.Perm.Basic

/-!
# The cells of a range

`CellRange.scan` lists the cells that a range holds, each of them once (`count_scan`), and the parts
of a range hold each of its cells in just one place (`countP_parts`). Both are stated as counts, so
that they add up over lists of ranges.
-/

namespace UtmTiles
namespace CellRange

/-! ## Scanning -/

theorem mem_rowFrom {c d : Cell} {count : Nat} :
    d ∈ rowFrom c count ↔ d.tj = c.tj ∧ c.ti ≤ d.ti ∧ d.ti < c.ti + count := by
  induction count generalizing c with
  | zero =>
    simp only [rowFrom, List.not_mem_nil, false_iff]
    omega
  | succ count ih =>
    obtain ⟨ti, tj⟩ := c
    obtain ⟨ui, uj⟩ := d
    simp only [rowFrom, List.mem_cons, ih, Cell.mk.injEq]
    omega

theorem nodup_rowFrom (c : Cell) (count : Nat) : (rowFrom c count).Nodup := by
  induction count generalizing c with
  | zero => exact List.nodup_nil
  | succ count ih =>
    refine List.nodup_cons.2 ⟨?_, ih _⟩
    rw [mem_rowFrom]
    simp only
    omega

theorem mem_rowsFrom {r : CellRange} {c : Cell} {tj : Int} {count : Nat} :
    c ∈ r.rowsFrom tj count ↔
      r.west ≤ c.ti ∧ c.ti < r.east ∧ tj ≤ c.tj ∧ c.tj < tj + count := by
  induction count generalizing tj with
  | zero =>
    simp only [rowsFrom, List.not_mem_nil, false_iff]
    omega
  | succ count ih =>
    simp only [rowsFrom, List.mem_append, mem_rowFrom, ih, width]
    omega

theorem nodup_rowsFrom (r : CellRange) (tj : Int) (count : Nat) : (r.rowsFrom tj count).Nodup := by
  induction count generalizing tj with
  | zero => exact List.nodup_nil
  | succ count ih =>
    refine List.nodup_append.2 ⟨nodup_rowFrom _ _, ih _, ?_⟩
    rintro c hrow d hrows rfl
    have hhere := (mem_rowFrom.1 hrow).1
    have hnorth := (mem_rowsFrom.1 hrows).2.2.1
    simp only at hhere
    omega

/-- A scan lists the cells that the range holds. -/
theorem mem_scan {r : CellRange} {c : Cell} : c ∈ r.scan ↔ r.Holds c := by
  rw [scan, mem_rowsFrom, Holds, height]
  omega

/-- A scan lists no cell twice. -/
theorem nodup_scan (r : CellRange) : r.scan.Nodup := nodup_rowsFrom r _ _

theorem count_scan (r : CellRange) (c : Cell) : r.scan.count c = if r.Holds c then 1 else 0 := by
  rw [r.nodup_scan.count]
  simp only [mem_scan]

/-! ## Parts -/

theorem holds_eastern_half {r : CellRange} {c : Cell} :
    Holds { r with west := r.middleTi } c ↔ r.Holds c ∧ r.middleTi ≤ c.ti := by
  simp only [Holds, middleTi]
  omega

theorem holds_western_half {r : CellRange} {c : Cell} :
    Holds { r with east := r.middleTi } c ↔ r.Holds c ∧ c.ti < r.middleTi := by
  simp only [Holds, middleTi]
  omega

theorem holds_northern_half {r : CellRange} {c : Cell} :
    Holds { r with south := r.middleTj } c ↔ r.Holds c ∧ r.middleTj ≤ c.tj := by
  simp only [Holds, middleTj]
  omega

theorem holds_southern_half {r : CellRange} {c : Cell} :
    Holds { r with north := r.middleTj } c ↔ r.Holds c ∧ c.tj < r.middleTj := by
  simp only [Holds, middleTj]
  omega

/-- The eastern and the western half share the cells of the whole. -/
theorem countP_columns (r : CellRange) (c : Cell) :
    [{ r with west := r.middleTi }, { r with east := r.middleTi }].countP
      (fun q => decide (q.Holds c)) = if r.Holds c then 1 else 0 := by
  simp only [List.countP_cons, List.countP_nil, decide_eq_true_eq, holds_eastern_half,
    holds_western_half]
  grind

/-- The northern and the southern half share the cells of the whole. -/
theorem countP_rows (r : CellRange) (c : Cell) :
    [{ r with south := r.middleTj }, { r with north := r.middleTj }].countP
      (fun q => decide (q.Holds c)) = if r.Holds c then 1 else 0 := by
  simp only [List.countP_cons, List.countP_nil, decide_eq_true_eq, holds_northern_half,
    holds_southern_half]
  grind

/-- A cell of the whole lies in just one part. -/
theorem countP_parts (r : CellRange) (c : Cell) :
    r.parts.countP (fun q => decide (q.Holds c)) = if r.Holds c then 1 else 0 := by
  unfold parts
  split
  · exact r.countP_columns c
  · split
    · exact r.countP_rows c
    · -- quarters are the columns of both rows
      have hsouth := countP_columns { r with north := r.middleTj } c
      have hnorth := countP_columns { r with south := r.middleTj } c
      have hrows := r.countP_rows c
      simp only [List.countP_cons, List.countP_nil, decide_eq_true_eq, middleTi] at *
      omega

/-- A part lies within the whole. -/
theorem holds_of_mem_parts {r p : CellRange} {c : Cell} (hp : p ∈ r.parts) (hc : p.Holds c) :
    r.Holds c := by
  by_contra hout
  have hcount := r.countP_parts c
  rw [if_neg hout, List.countP_eq_zero] at hcount
  exact hcount p hp (decide_eq_true hc)

/-- There is one part with the cell. -/
theorem existsUnique_part {r : CellRange} {c : Cell} (hc : r.Holds c) :
    ∃! p, p ∈ r.parts ∧ p.Holds c := by
  have hcount := r.countP_parts c
  rw [if_pos hc, List.countP_eq_length_filter, List.length_eq_one_iff] at hcount
  obtain ⟨p, hp⟩ := hcount
  have hmem : ∀ q, q ∈ r.parts ∧ q.Holds c ↔ q = p := fun q => by
    rw [← List.mem_singleton, ← hp, List.mem_filter, decide_eq_true_iff]
  exact ⟨p, (hmem p).2 rfl, fun q hq => (hmem q).1 hq⟩

end CellRange
end UtmTiles
