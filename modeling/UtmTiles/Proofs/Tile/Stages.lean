import UtmTiles.Proofs.Tile.Pixel
import UtmTiles.Proofs.Tile.Subtiles
import Mathlib.Data.List.Nodup

/-!
# Subdivisions in stages

A tile that is cut by `a`, and each of its subtiles by `b`, is cut into the cells that cutting it by
`a * b` gives, each of them once (`Tile.flatMap_subdivision_perm`). The indices of the subtiles in
between lie in their range if those of the last ones do (`Tile.isDivisible_mul_iff`), and so both
ways fail for the same tiles (`Tile.subtiles_in_stages`).
-/

namespace UtmTiles

variable {α : Type}

/-! ## Fractions of a grid -/

namespace Grid

/-- The grid with the same pixels and fewer of them in a tile. -/
def divided (g : Grid α) (ratio : ℕ) : Grid α := { g with tilesize := g.tilesize / ratio }

theorem divided_divided (g : Grid α) (a b : ℕ) : (g.divided a).divided b = g.divided (a * b) := by
  simp only [divided, Nat.div_div_eq_div_mul]

theorem make_divided [Scalar α] {resolution : α} {tilesize pad : ℕ} {g : Grid α}
    (h : make resolution tilesize pad = .ok g) {ratio : ℕ} (hdvd : ratio ∣ g.tilesize) :
    make g.resolution (g.tilesize / ratio) g.pad = .ok (g.divided ratio) := by
  obtain ⟨htilesize, hresolution, hraster, rfl⟩ := make_eq_ok_iff.1 h
  have hpositive : 0 < tilesize / ratio :=
    Nat.div_pos (Nat.le_of_dvd htilesize hdvd) (Nat.pos_of_dvd_of_pos hdvd htilesize)
  have hsmaller : tilesize / ratio ≤ tilesize := Nat.div_le_self tilesize ratio
  refine make_eq_ok_iff.2 ⟨hpositive, hresolution, ?_, rfl⟩
  dsimp only
  omega

end Grid

namespace Tile

/-- In exact arithmetic, a whole number of pixels of the tile's own size makes up a subtile. -/
theorem subdividedGrid_eq_divided {t : Tile ℝ} {resolution : ℝ} {tilesize pad : ℕ}
    (hgrid : Grid.make resolution tilesize pad = .ok t.grid) {ratio : ℕ}
    (hdvd : ratio ∣ t.grid.tilesize) :
    t.subdividedGrid ratio none none = .ok (t.grid.divided ratio) := by
  have hmake := Grid.make_divided hgrid hdvd
  obtain ⟨hsize, hresolution, -⟩ := Grid.make_eq_ok_iff.1 hmake
  have hratio : ratio ≠ 0 := by
    rintro rfl
    simp at hsize
  have hpixels : t.grid.step / (Scalar.ofInt ratio * t.grid.resolution) =
      (t.grid.tilesize / ratio : ℕ) := by
    have hpositive := Grid.pos_of_isResolution hresolution
    rw [Grid.step_real, Scalar.ofInt_real, Int.cast_natCast,
      mul_div_mul_right _ _ hpositive.ne', Nat.cast_div hdvd (by exact_mod_cast hratio)]
  have hwhole : ¬ (((t.grid.tilesize / ratio : ℕ) : ℝ) < 1.0 ∨
      tolerance * ((t.grid.tilesize / ratio : ℕ) : ℝ) < Scalar.abs 0) := by
    have hone : (1 : ℝ) ≤ (t.grid.tilesize / ratio : ℕ) := by exact_mod_cast hsize
    have habs : Scalar.abs (0 : ℝ) = 0 := by norm_num [Scalar.abs]
    generalize ((t.grid.tilesize / ratio : ℕ) : ℝ) = size at hone ⊢
    rw [not_or, not_lt, not_lt, habs]
    constructor
    · norm_num
      exact hone
    · have htolerance : (0 : ℝ) < tolerance := by norm_num [tolerance]
      positivity
  unfold subdividedGrid
  rw [if_neg (by simp [hratio, Nat.mod_eq_zero_of_dvd hdvd])]
  simp only [Option.getD_none, hpixels, Scalar.round_natCast, Scalar.pixels_natCast, sub_self]
  rw [if_neg (not_not.2 hresolution), if_neg hwhole, hmake]

/-- In exact arithmetic, only the indices can be in the way of a subdivision that keeps the pixels. -/
theorem subtiles_none_eq_ok_iff {t : Tile ℝ} {resolution : ℝ} {tilesize pad : ℕ}
    (hgrid : Grid.make resolution tilesize pad = .ok t.grid) {ratio : ℕ}
    (hdvd : ratio ∣ t.grid.tilesize) {s : Subtiles ℝ} :
    t.subtiles ratio none none = .ok s ↔
      t.IsDivisible ratio ∧ s = t.subdivision (t.grid.divided ratio) ratio := by
  rw [subtiles_eq_ok_iff, subdividedGrid_eq_divided hgrid hdvd]
  constructor
  · rintro ⟨child, hchild, hdivisible, rfl⟩
    cases hchild
    exact ⟨hdivisible, rfl⟩
  · rintro ⟨hdivisible, rfl⟩
    exact ⟨_, rfl, hdivisible, rfl⟩

/-! ## Cells in stages -/

section Cells

variable {t u : Tile α} {middle child : Grid α} {a b ratio : ℕ}

/-- The subtiles are the cells of the finer lattice whose indices, divided by the ratio, are those of
the tile. -/
theorem mem_subdivision_iff (hratio : 0 < ratio) :
    u ∈ (t.subdivision child ratio).toList ↔
      u.grid = child ∧ u.zone = t.zone ∧ u.ti / ratio = t.ti ∧ u.tj / ratio = t.tj := by
  rw [List.mem_iff_getElem?]
  constructor
  · rintro ⟨k, hk⟩
    obtain ⟨-, hgrid, hzone, -, -⟩ := getElem?_subdivision.1 hk
    exact ⟨hgrid, hzone, div_of_getElem?_subdivision hk⟩
  · rintro ⟨rfl, hzone, hti, htj⟩
    exact (existsUnique_subtile hratio hzone hti htj).exists

theorem nodup_subdivision : (t.subdivision child ratio).toList.Nodup := by
  rw [List.nodup_iff_getElem?_ne_getElem?]
  intro i j hij hj hsame
  obtain ⟨u, hu⟩ : ∃ u, (t.subdivision child ratio).toList[j]? = some u :=
    ⟨_, List.getElem?_eq_getElem hj⟩
  obtain ⟨hnumber, rfl, hzone, -, -⟩ := getElem?_subdivision.1 hu
  obtain ⟨hti, htj⟩ := div_of_getElem?_subdivision hu
  have hratio : 0 < ratio := Nat.pos_of_mul_pos_left (Nat.zero_lt_of_lt hnumber)
  exact hij.ne ((existsUnique_subtile hratio hzone hti htj).unique (hsame.trans hu) hu)

/-- Cutting a tile and then each of its subtiles gives the cells of cutting it once, each once. -/
theorem flatMap_subdivision_perm (ha : 0 < a) (hb : 0 < b) :
    ((t.subdivision middle a).toList.flatMap fun u => (u.subdivision child b).toList).Perm
      (t.subdivision child (a * b)).toList := by
  have hdiv (i : ℤ) : i / (a * b : ℕ) = i / b / a := by
    rw [Int.ediv_ediv_of_nonneg (Int.natCast_nonneg b), mul_comm a, Nat.cast_mul]
  refine (List.perm_ext_iff_of_nodup ?_ nodup_subdivision).2 fun v => ?_
  · refine List.nodup_flatMap.2 ⟨fun u _ => nodup_subdivision, ?_⟩
    refine nodup_subdivision.imp_of_mem fun {u u'} hu hu' hne v hv hv' => hne ?_
    -- a cell in two subtiles would give them the same indices
    obtain ⟨hgrid, hzone, -, -⟩ := (mem_subdivision_iff ha).1 hu
    obtain ⟨hgrid', hzone', -, -⟩ := (mem_subdivision_iff ha).1 hu'
    obtain ⟨hti, htj⟩ := indices_eq_of_mem_subdivisions hv' hv
    exact Tile.ext (hgrid.trans hgrid'.symm) (hzone.trans hzone'.symm) hti htj
  · rw [List.mem_flatMap, mem_subdivision_iff (Nat.mul_pos ha hb), hdiv, hdiv]
    constructor
    · rintro ⟨u, hu, hv⟩
      obtain ⟨-, hzone, hti, htj⟩ := (mem_subdivision_iff ha).1 hu
      obtain ⟨hgrid, hzone', hti', htj'⟩ := (mem_subdivision_iff hb).1 hv
      exact ⟨hgrid, hzone'.trans hzone, hti' ▸ hti, htj' ▸ htj⟩
    · rintro ⟨hgrid, hzone, hti, htj⟩
      exact ⟨⟨middle, t.zone, v.ti / b, v.tj / b⟩,
        (mem_subdivision_iff ha).2 ⟨rfl, rfl, hti, htj⟩,
        (mem_subdivision_iff hb).2 ⟨hgrid, hzone, rfl, rfl⟩⟩

end Cells

/-! ## Indices in stages -/

/-- All the indices that an index is cut into have 64 bits. -/
def IsScalable (index : ℤ) (ratio : ℕ) : Prop :=
  -2 ^ 63 ≤ index * ratio ∧ index * ratio + (ratio - 1) ≤ 2 ^ 63 - 1

theorem isDivisible_iff {t : Tile α} {ratio : ℕ} :
    t.IsDivisible ratio ↔ IsScalable t.ti ratio ∧ IsScalable t.tj ratio := Iff.rfl

section Indices

variable {a b : ℕ}

/-- An index that can be scaled by more can be scaled by less. -/
theorem IsScalable.of_mul (hb : 0 < b) {index : ℤ} (h : IsScalable index (a * b)) :
    IsScalable index a := by
  obtain ⟨hlow, hhigh⟩ := h
  push_cast at hlow hhigh
  have hone : (1 : ℤ) ≤ b := by exact_mod_cast hb
  rcases le_or_gt 0 index with hindex | hindex
  · have hmore : (index + 1) * a ≤ (index + 1) * (a * b) := by
      rw [← mul_assoc]
      exact le_mul_of_one_le_right (by positivity) hone
    have hnonneg : 0 ≤ index * a := by positivity
    constructor <;> linarith
  · have hless : index * (a * b) ≤ index * a := by
      rw [← mul_assoc]
      exact mul_le_of_one_le_right (mul_nonpos_of_nonpos_of_nonneg hindex.le (by positivity)) hone
    have hnonpos : (index + 1) * a ≤ 0 := mul_nonpos_of_nonpos_of_nonneg (by omega) (by positivity)
    constructor <;> linarith

/-- An index can be scaled by a product if it can be scaled by one factor, and what it is cut into by
the other. -/
theorem isScalable_mul_iff (ha : 0 < a) (hb : 0 < b) {index : ℤ} :
    IsScalable index (a * b) ↔
      IsScalable index a ∧ ∀ part : ℤ, part / a = index → IsScalable part b := by
  have hpositive : (0 : ℤ) < a := by exact_mod_cast ha
  have hnonneg : (0 : ℤ) ≤ b := Int.natCast_nonneg b
  constructor
  · intro h
    refine ⟨h.of_mul hb, fun part hpart => ?_⟩
    obtain ⟨hfirst, hlast⟩ := (Int.ediv_eq_iff_of_pos hpositive).1 hpart
    obtain ⟨hlow, hhigh⟩ := h
    push_cast at hlow hhigh
    have hfrom := mul_le_mul_of_nonneg_right hfirst hnonneg
    have hto := mul_le_mul_of_nonneg_right (Int.add_one_le_of_lt hlast) hnonneg
    constructor <;> nlinarith
  · rintro ⟨-, hparts⟩
    -- the first and the last part have the smallest and the largest index
    have hfirst : index * a / a = index := Int.mul_ediv_cancel index hpositive.ne'
    have hlast : (index * a + (a - 1)) / a = index :=
      (Int.ediv_eq_iff_of_pos hpositive).2 ⟨by omega, by omega⟩
    obtain ⟨hlow, -⟩ := hparts _ hfirst
    obtain ⟨-, hhigh⟩ := hparts _ hlast
    constructor
    · push_cast
      linarith
    · push_cast
      linarith

/-- A tile can be cut by a product if it can be cut by one factor, and each of its subtiles by the
other. -/
theorem isDivisible_mul_iff {t : Tile α} {middle : Grid α} (ha : 0 < a) (hb : 0 < b) :
    t.IsDivisible (a * b) ↔
      t.IsDivisible a ∧ ∀ u ∈ (t.subdivision middle a).toList, u.IsDivisible b := by
  simp only [isDivisible_iff, isScalable_mul_iff ha hb, mem_subdivision_iff ha]
  constructor
  · rintro ⟨⟨hti, htis⟩, htj, htjs⟩
    exact ⟨⟨hti, htj⟩, fun u ⟨_, _, hcol, hrow⟩ => ⟨htis _ hcol, htjs _ hrow⟩⟩
  · rintro ⟨⟨hti, htj⟩, hparts⟩
    -- every column meets some row, and every row some column
    have hcancel (index : ℤ) : index * a / a = index := Int.mul_ediv_cancel index (by omega)
    refine ⟨⟨hti, fun i hi => ?_⟩, htj, fun j hj => ?_⟩
    · exact (hparts ⟨middle, t.zone, i, t.tj * a⟩ ⟨rfl, rfl, hi, hcancel _⟩).1
    · exact (hparts ⟨middle, t.zone, t.ti * a, j⟩ ⟨rfl, rfl, hcancel _, hj⟩).2

end Indices

/-! ## Subtiles in stages -/

section Stages

variable {t : Tile ℝ} {resolution : ℝ} {tilesize pad a b : ℕ}

/-- The subtiles of a tile in a fraction of the grid lie in a fraction of that fraction. -/
theorem subtiles_divided_eq_ok_iff (hgrid : Grid.make resolution tilesize pad = .ok t.grid)
    (hdvd : a * b ∣ t.grid.tilesize) {u : Tile ℝ} (hu : u.grid = t.grid.divided a)
    {s : Subtiles ℝ} :
    u.subtiles b none none = .ok s ↔
      u.IsDivisible b ∧ s = u.subdivision (t.grid.divided (a * b)) b := by
  have hmake := Grid.make_divided hgrid (dvd_of_mul_right_dvd hdvd)
  rw [← hu] at hmake
  have hrest : b ∣ u.grid.tilesize := by
    rw [hu]
    exact Nat.dvd_div_of_mul_dvd hdvd
  rw [subtiles_none_eq_ok_iff hmake hrest, hu, Grid.divided_divided]

/-- In exact arithmetic, a tile is cut by a product that divides its number of pixels exactly if it
is cut by one factor and each of its subtiles by the other. Both ways give the same tiles, and each
of them once. -/
theorem subtiles_in_stages (hgrid : Grid.make resolution tilesize pad = .ok t.grid)
    (hdvd : a * b ∣ t.grid.tilesize) :
    ((∃ s, t.subtiles (a * b) none none = .ok s) ↔
      ∃ first, t.subtiles a none none = .ok first ∧
        ∀ u ∈ first.toList, ∃ second, u.subtiles b none none = .ok second) ∧
    ∀ s, t.subtiles (a * b) none none = .ok s →
      ∃ first seconds, t.subtiles a none none = .ok first ∧
        first.toList.mapM (fun u => u.subtiles b none none) = .ok seconds ∧
        (seconds.flatMap Subtiles.toList).Perm s.toList ∧ s.toList.Nodup := by
  have hpositive : 0 < a * b := by
    obtain ⟨htilesize, -, -, hnumbers⟩ := Grid.make_eq_ok_iff.1 hgrid
    rw [hnumbers] at hdvd
    exact Nat.pos_of_dvd_of_pos hdvd htilesize
  have ha : 0 < a := Nat.pos_of_mul_pos_right hpositive
  have hb : 0 < b := Nat.pos_of_mul_pos_left hpositive
  have hgrids {u : Tile ℝ} (hu : u ∈ (t.subdivision (t.grid.divided a) a).toList) :
      u.grid = t.grid.divided a := ((mem_subdivision_iff ha).1 hu).1
  simp only [subtiles_none_eq_ok_iff hgrid hdvd,
    subtiles_none_eq_ok_iff hgrid (dvd_of_mul_right_dvd hdvd)]
  have hindices : t.IsDivisible (a * b) ↔ t.IsDivisible a ∧
      ∀ u ∈ (t.subdivision (t.grid.divided a) a).toList, u.IsDivisible b :=
    isDivisible_mul_iff ha hb
  constructor
  · constructor
    · rintro ⟨_, hdivisible, rfl⟩
      obtain ⟨hfirst, hparts⟩ := hindices.1 hdivisible
      refine ⟨_, ⟨hfirst, rfl⟩, fun u hu => ⟨u.subdivision (t.grid.divided (a * b)) b, ?_⟩⟩
      exact (subtiles_divided_eq_ok_iff hgrid hdvd (hgrids hu)).2 ⟨hparts u hu, rfl⟩
    · rintro ⟨_, ⟨hdivisible, rfl⟩, hparts⟩
      refine ⟨_, hindices.2 ⟨hdivisible, fun u hu => ?_⟩, rfl⟩
      obtain ⟨second, hsecond⟩ := hparts u hu
      exact ((subtiles_divided_eq_ok_iff hgrid hdvd (hgrids hu)).1 hsecond).1
  · rintro s ⟨hdivisible, rfl⟩
    obtain ⟨hfirst, hparts⟩ := hindices.1 hdivisible
    refine ⟨_, (t.subdivision (t.grid.divided a) a).toList.map fun u =>
      u.subdivision (t.grid.divided (a * b)) b, ⟨hfirst, rfl⟩, ?_, ?_, nodup_subdivision⟩
    · rw [mapM_eq_ok_iff, List.map_map]
      refine List.map_congr_left fun u hu => ?_
      exact (subtiles_divided_eq_ok_iff hgrid hdvd (hgrids hu)).2 ⟨hparts u hu, rfl⟩
    · rw [List.flatMap_map]
      exact flatMap_subdivision_perm ha hb

/-- A tile with indices that only just can be cut by six, cut by two and by three. -/
theorem subtiles_in_stages_at_limits :
    let t : Tile ℝ := ⟨⟨10, 12, 1⟩, 33, 1537228672809129300, -1537228672809129301⟩
    Grid.make 10 12 1 = .ok t.grid ∧ 2 * 3 ∣ t.grid.tilesize ∧
      ∃ s first seconds, t.subtiles (2 * 3) none none = .ok s ∧
        t.subtiles 2 none none = .ok first ∧
        first.toList.mapM (fun u => u.subtiles 3 none none) = .ok seconds ∧
        (seconds.flatMap Subtiles.toList).Perm s.toList := by
  intro t
  have hgrid : Grid.make 10 12 1 = .ok t.grid :=
    Grid.make_eq_ok_iff.2 ⟨by decide, ⟨rfl, by norm_num⟩, by decide, rfl⟩
  have hdvd : 2 * 3 ∣ t.grid.tilesize := by decide
  obtain ⟨-, hstages⟩ := subtiles_in_stages hgrid hdvd
  have hdivisible : t.IsDivisible (2 * 3) := ⟨by decide, by decide⟩
  have hs := (subtiles_none_eq_ok_iff hgrid hdvd).2 ⟨hdivisible, rfl⟩
  obtain ⟨first, seconds, hfirst, hseconds, hperm, -⟩ := hstages _ hs
  exact ⟨hgrid, hdvd, _, first, seconds, hs, hfirst, hseconds, hperm⟩

end Stages

end Tile
end UtmTiles
