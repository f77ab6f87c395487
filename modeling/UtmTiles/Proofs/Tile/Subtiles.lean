import UtmTiles.Producer
import UtmTiles.Proofs.Partial
import UtmTiles.Tile.Subdivision
import Mathlib.Algebra.Order.Ring.Int

/-!
# The subtiles of a tile

A subdivision is gone through one subtile at a time. It is a producer of the subtiles by number
(`Subtiles.producer`), and its state after any number of steps is known without taking them
(`Subtiles.IsWithin.after_producer`). The check of the upper left subtile's indices is one of all
subtiles (`Tile.subtiles_eq_ok_iff`, `Tile.IsDivisible.subtile_bounds`), so that none of them is out
of range.

The index of a subtile, divided by the ratio, is that of the tile: the subtiles are the cells of the
finer lattice with this property, each at one place (`Tile.existsUnique_subtile`). A subtile that is
asked for by its row and column is the one that the producer gives with that number
(`Tile.subtileAt_eq_ask`).
-/

namespace UtmTiles

variable {α : Type}

/-! ## Subtiles by number -/

namespace Subtiles

theorem getElem?_toList (s : Subtiles α) (k : ℕ) :
    s.toList[k]? = if k < s.remaining then some (s.tileAt (s.index + k)) else none := by
  unfold toList take
  rw [Nat.min_self, List.getElem?_map]
  by_cases hk : k < s.remaining
  · rw [List.getElem?_range hk, if_pos hk]
    rfl
  · rw [List.getElem?_eq_none (by simpa using hk), if_neg hk]
    rfl

@[simp] theorem length_toList (s : Subtiles α) : s.toList.length = s.remaining := by
  simp only [toList, take, List.length_map, List.length_range, Nat.min_self]

theorem toList_of_next? {s rest : Subtiles α} {t : Tile α} (h : s.next? = some (t, rest)) :
    s.toList = t :: rest.toList := by
  unfold next? at h
  split at h
  · next hindex =>
    cases h
    have hremaining : s.remaining = { s with index := s.index + 1 }.remaining + 1 := by
      simp only [remaining, total] at hindex ⊢
      omega
    unfold toList take
    rw [Nat.min_self, Nat.min_self, hremaining, List.range_succ_eq_map, List.map_cons, List.map_map]
    refine congrArg _ (List.map_congr_left fun k _ => congrArg s.tileAt ?_)
    exact (Nat.succ_add_eq_add_succ s.index k).symm
  · cases h

theorem toList_of_next?_eq_none {s : Subtiles α} (h : s.next? = none) : s.toList = [] := by
  unfold next? at h
  split at h
  · cases h
  · next hindex =>
    rw [← List.length_eq_zero_iff, length_toList]
    exact Nat.sub_eq_zero_of_le (Nat.not_lt.1 hindex)

/-- The machine that hands out the subtiles. -/
def producer : Producer (Subtiles α) (Tile α) where
  next s :=
    match s.next? with
    | some (t, rest) => (some t, rest)
    | none => (none, s)
  left := toList
  next_fst s := by
    cases h : s.next? with
    | none => rw [toList_of_next?_eq_none h, List.head?_nil]
    | some step => rw [toList_of_next? h, List.head?_cons]
  left_next s := by
    cases h : s.next? with
    | none => simp only [toList_of_next?_eq_none h, List.tail_nil]
    | some step => rw [toList_of_next? h, List.tail_cons]

theorem ask_producer (s : Subtiles α) (k : ℕ) : producer.ask s k = s.toList[k]? :=
  producer.ask_eq_getElem? s k

/-! ### States between the subtiles -/

/-- The number of the next subtile does not pass the end. -/
def IsWithin (s : Subtiles α) : Prop := s.index ≤ s.total

theorem isWithin_drop (s : Subtiles α) (n : ℕ) : (s.drop n).IsWithin := Nat.min_le_right _ _

theorem remaining_drop (s : Subtiles α) (n : ℕ) : (s.drop n).remaining = s.remaining - n := by
  simp only [drop, remaining, total]
  omega

theorem drop_drop (s : Subtiles α) (m n : ℕ) : (s.drop m).drop n = s.drop (m + n) := by
  simp only [drop, total, Subtiles.mk.injEq, true_and]
  omega

theorem IsWithin.drop_zero {s : Subtiles α} (h : s.IsWithin) : s.drop 0 = s := by
  unfold drop
  rw [Nat.add_zero, Nat.min_eq_left h]

/-- One call drops one subtile, if there is one. -/
theorem IsWithin.producer_next_snd {s : Subtiles α} (h : s.IsWithin) :
    (producer.next s).2 = s.drop 1 := by
  change (match s.next? with
    | some (t, rest) => (some t, rest)
    | none => (none, s)).2 = s.drop 1
  unfold next? drop
  by_cases hindex : s.index < s.total
  · rw [if_pos hindex, Nat.min_eq_left (Nat.succ_le_of_lt hindex)]
  · rw [if_neg hindex, Nat.min_eq_right (by omega), Nat.le_antisymm (Nat.not_lt.1 hindex) h]

theorem IsWithin.after_producer {s : Subtiles α} (h : s.IsWithin) (n : ℕ) :
    producer.after s n = s.drop n := by
  induction n generalizing s with
  | zero => exact h.drop_zero.symm
  | succ n ih =>
    rw [Producer.after, h.producer_next_snd, ih (s.isWithin_drop 1), drop_drop, Nat.add_comm]

end Subtiles

namespace Tile

/-! ## Where the subtiles are -/

/-- The subtiles of a tile in a finer grid, wherever their indices lie. -/
def subdivision (t : Tile α) (child : Grid α) (ratio : ℕ) : Subtiles α where
  grid := child
  zone := t.zone
  ti := t.ti * ratio
  tj := t.tj * ratio + (ratio - 1)
  ratio := ratio
  index := 0

/-- Rows of subtiles are counted from the top, columns from the left. -/
theorem getElem?_subdivision {t u : Tile α} {child : Grid α} {ratio k : ℕ} :
    (t.subdivision child ratio).toList[k]? = some u ↔
      k < ratio * ratio ∧ u.grid = child ∧ u.zone = t.zone ∧
        u.ti = t.ti * ratio + (k % ratio : ℕ) ∧
        u.tj = t.tj * ratio + (ratio - 1) - (k / ratio : ℕ) := by
  rw [Subtiles.getElem?_toList]
  change (if k < ratio * ratio then some ((t.subdivision child ratio).tileAt (0 + k)) else none) =
    some u ↔ _
  rw [zero_add]
  constructor
  · intro h
    split at h
    · next hk =>
      cases h
      exact ⟨hk, rfl, rfl, rfl, rfl⟩
    · cases h
  · rintro ⟨hk, hgrid, hzone, hti, htj⟩
    rw [if_pos hk, Option.some_inj]
    exact Tile.ext hgrid.symm hzone.symm hti.symm htj.symm

/-- The indices of a subtile, divided by the ratio, are those of the tile. -/
theorem div_of_getElem?_subdivision {t u : Tile α} {child : Grid α} {ratio k : ℕ}
    (h : (t.subdivision child ratio).toList[k]? = some u) :
    u.ti / ratio = t.ti ∧ u.tj / ratio = t.tj := by
  obtain ⟨hk, -, -, hti, htj⟩ := getElem?_subdivision.1 h
  have hratio : 0 < ratio := Nat.pos_of_mul_pos_left (Nat.zero_lt_of_lt hk)
  have hcol := Nat.mod_lt k hratio
  have hrow := Nat.div_lt_of_lt_mul hk
  generalize k % ratio = col at *
  generalize k / ratio = row at *
  have hpositive : (0 : ℤ) < ratio := by exact_mod_cast hratio
  rw [Int.ediv_eq_iff_of_pos hpositive, Int.ediv_eq_iff_of_pos hpositive]
  exact ⟨⟨by omega, by omega⟩, by omega, by omega⟩

/-- A tile of the finer grid whose indices, divided by the ratio, are those of the tile stands among
the subtiles, and at one place only. -/
theorem existsUnique_subtile {t u : Tile α} {ratio : ℕ} (hratio : 0 < ratio)
    (hzone : u.zone = t.zone) (hti : u.ti / ratio = t.ti) (htj : u.tj / ratio = t.tj) :
    ∃! k : ℕ, (t.subdivision u.grid ratio).toList[k]? = some u := by
  have hpositive : (0 : ℤ) < ratio := by exact_mod_cast hratio
  -- what the divisions leave over are the column and the number of rows below
  obtain ⟨col, hcol⟩ := Int.eq_ofNat_of_zero_le (Int.emod_nonneg u.ti hpositive.ne')
  obtain ⟨below, hbelow⟩ := Int.eq_ofNat_of_zero_le (Int.emod_nonneg u.tj hpositive.ne')
  have hcol_lt := Int.emod_lt_of_pos u.ti hpositive
  have hbelow_lt := Int.emod_lt_of_pos u.tj hpositive
  have hti_eq := Int.mul_ediv_add_emod u.ti ratio
  have htj_eq := Int.mul_ediv_add_emod u.tj ratio
  rw [hcol] at hcol_lt hti_eq
  rw [hbelow] at hbelow_lt htj_eq
  rw [hti, mul_comm] at hti_eq
  rw [htj, mul_comm] at htj_eq
  have hplace (k : ℕ) : (t.subdivision u.grid ratio).toList[k]? = some u ↔
      col + ratio * (ratio - 1 - below) = k ∧ col < ratio := by
    rw [getElem?_subdivision, ← Nat.div_mod_unique hratio]
    constructor
    · rintro ⟨hk, -, -, hti_k, htj_k⟩
      have hrow := Nat.div_lt_of_lt_mul hk
      omega
    · rintro ⟨hrow, hcolumn⟩
      have hk : k < ratio * ratio := Nat.lt_mul_of_div_lt (by omega) hratio
      exact ⟨hk, rfl, hzone, by omega, by omega⟩
  exact ⟨_, (hplace _).2 ⟨rfl, by omega⟩, fun k hk => ((hplace k).1 hk).1.symm⟩

/-! ## When there are subtiles -/

/-- All the indices that the indices of a tile are cut into have 64 bits. -/
def IsDivisible (t : Tile α) (ratio : ℕ) : Prop :=
  (-2 ^ 63 ≤ t.ti * ratio ∧ t.ti * ratio + (ratio - 1) ≤ 2 ^ 63 - 1) ∧
    -2 ^ 63 ≤ t.tj * ratio ∧ t.tj * ratio + (ratio - 1) ≤ 2 ^ 63 - 1

theorem scaledIndex?_eq_some_iff {index low : ℤ} {ratio : ℕ} :
    scaledIndex? index ratio = some low ↔
      (-2 ^ 63 ≤ index * ratio ∧ index * ratio + (ratio - 1) ≤ 2 ^ 63 - 1) ∧
        low = index * ratio := by
  change (if _ then _ else none) = _ ↔ _
  rw [Option.ite_none_right_eq_some, Option.some_inj, eq_comm (a := low)]
  rfl

theorem upperLeft_eq_ok_iff [Scalar α] {t : Tile α} {ratio : ℕ} {ti tj : ℤ} :
    t.upperLeft ratio = .ok (ti, tj) ↔
      t.IsDivisible ratio ∧ ti = t.ti * ratio ∧ tj = t.tj * ratio + (ratio - 1) := by
  unfold upperLeft
  constructor
  · intro h
    split at h
    · next hti htj =>
      cases h
      obtain ⟨hcols, rfl⟩ := scaledIndex?_eq_some_iff.1 hti
      obtain ⟨hrows, rfl⟩ := scaledIndex?_eq_some_iff.1 htj
      exact ⟨⟨hcols, hrows⟩, rfl, rfl⟩
    · cases h
  · rintro ⟨⟨hti, htj⟩, rfl, rfl⟩
    rw [scaledIndex?_eq_some_iff.2 ⟨hti, rfl⟩, scaledIndex?_eq_some_iff.2 ⟨htj, rfl⟩]

theorem upperLeft_bounds [Scalar α] {t : Tile α} {ratio : ℕ} {ti tj : ℤ}
    (h : t.upperLeft ratio = .ok (ti, tj)) :
    (-2 ^ 63 ≤ ti ∧ ti + (ratio - 1) ≤ 2 ^ 63 - 1) ∧
      -2 ^ 63 ≤ tj - (ratio - 1) ∧ tj ≤ 2 ^ 63 - 1 := by
  obtain ⟨⟨hti, htj⟩, rfl, rfl⟩ := upperLeft_eq_ok_iff.1 h
  exact ⟨hti, by omega, htj.2⟩

theorem ratio_pos_of_subdividedGrid [Scalar α] {t : Tile α} {ratio : ℕ} {resolution : Option α}
    {pad : Option ℕ} {child : Grid α} (h : t.subdividedGrid ratio resolution pad = .ok child) :
    0 < ratio := by
  apply Nat.pos_of_ne_zero
  intro hzero
  unfold subdividedGrid at h
  rw [if_pos (Or.inl hzero)] at h
  cases h

/-- A tile is cut into its subtiles in one grid, if that grid exists and all indices do. -/
theorem subtiles_eq_ok_iff [Scalar α] {t : Tile α} {ratio : ℕ} {resolution : Option α}
    {pad : Option ℕ} {s : Subtiles α} :
    t.subtiles ratio resolution pad = .ok s ↔
      ∃ child, t.subdividedGrid ratio resolution pad = .ok child ∧ t.IsDivisible ratio ∧
        s = t.subdivision child ratio := by
  constructor
  · intro h
    obtain ⟨child, hchild, h⟩ := bind_eq_ok_iff.1 h
    obtain ⟨⟨ti, tj⟩, hplace, h⟩ := bind_eq_ok_iff.1 h
    obtain ⟨hdivisible, rfl, rfl⟩ := upperLeft_eq_ok_iff.1 hplace
    cases h
    exact ⟨child, hchild, hdivisible, rfl⟩
  · rintro ⟨child, hchild, hdivisible, rfl⟩
    refine bind_eq_ok_iff.2 ⟨child, hchild, bind_eq_ok_iff.2 ⟨(_, _), ?_, rfl⟩⟩
    exact upperLeft_eq_ok_iff.2 ⟨hdivisible, rfl, rfl⟩

/-- The check of the upper left subtile's indices is one of all of them. -/
theorem IsDivisible.subtile_bounds {t u : Tile α} {child : Grid α} {ratio k : ℕ}
    (h : t.IsDivisible ratio) (hu : (t.subdivision child ratio).toList[k]? = some u) :
    (-2 ^ 63 ≤ u.ti ∧ u.ti ≤ 2 ^ 63 - 1) ∧ -2 ^ 63 ≤ u.tj ∧ u.tj ≤ 2 ^ 63 - 1 := by
  obtain ⟨hk, -, -, hti, htj⟩ := getElem?_subdivision.1 hu
  obtain ⟨⟨hwest, heast⟩, hsouth, hnorth⟩ := h
  have hratio : 0 < ratio := Nat.pos_of_mul_pos_left (Nat.zero_lt_of_lt hk)
  have hcol := Nat.mod_lt k hratio
  have hrow := Nat.div_lt_of_lt_mul hk
  generalize k % ratio = col at *
  generalize k / ratio = row at *
  rw [hti, htj]
  exact ⟨⟨by omega, by omega⟩, by omega, by omega⟩

/-! ## Going through the subtiles -/

/-- Tiles of one lattice share no subtile. -/
theorem indices_eq_of_mem_subdivisions {t u v : Tile α} {child child' : Grid α} {ratio : ℕ}
    (ht : v ∈ (t.subdivision child ratio).toList) (hu : v ∈ (u.subdivision child' ratio).toList) :
    u.ti = t.ti ∧ u.tj = t.tj := by
  obtain ⟨k, hk⟩ := List.mem_iff_getElem?.1 ht
  obtain ⟨k', hk'⟩ := List.mem_iff_getElem?.1 hu
  obtain ⟨hti, htj⟩ := div_of_getElem?_subdivision hk
  obtain ⟨hti', htj'⟩ := div_of_getElem?_subdivision hk'
  exact ⟨hti'.symm.trans hti, htj'.symm.trans htj⟩

/-- The subtiles of a tile are handed out row by row, and nothing after them. After any number of
calls the number of those to come is known. All indices have 64 bits. The indices of the finer
lattice that have the tile's own as quotients come once each, and no others do, so that tiles of one
lattice share no subtile. -/
theorem subtiles_row_by_row [Scalar α] {t : Tile α} {ratio : ℕ} (hratio : ratio < 2 ^ 32)
    {resolution : Option α} {pad : Option ℕ} {s : Subtiles α}
    (h : t.subtiles ratio resolution pad = .ok s) :
    ∃ child, t.subdividedGrid ratio resolution pad = .ok child ∧
      let subtile (k : ℕ) : Tile α :=
        { grid := child
          zone := t.zone
          ti := t.ti * ratio + (k % ratio : ℕ)
          tj := t.tj * ratio + (ratio - 1) - (k / ratio : ℕ) }
      (∀ taken, let rest := Subtiles.producer.after s taken
        rest.remaining = ratio * ratio - taken ∧ rest.index ≤ rest.total ∧ rest.total < 2 ^ 64 ∧
          ∀ k, Subtiles.producer.ask rest k =
            if taken + k < ratio * ratio then some (subtile (taken + k)) else none) ∧
      (∀ k < ratio * ratio, (-2 ^ 63 ≤ (subtile k).ti ∧ (subtile k).ti ≤ 2 ^ 63 - 1) ∧
        -2 ^ 63 ≤ (subtile k).tj ∧ (subtile k).tj ≤ 2 ^ 63 - 1) ∧
      (∀ i j : ℤ, if i.fdiv ratio = t.ti ∧ j.fdiv ratio = t.tj
        then ∃! k, Subtiles.producer.ask s k = some ⟨child, t.zone, i, j⟩
        else ∀ k, Subtiles.producer.ask s k ≠ some ⟨child, t.zone, i, j⟩) ∧
      ∀ (u : Tile α) (resolution' : Option α) (pad' : Option ℕ) (s' : Subtiles α),
        u.grid = t.grid → u.zone = t.zone → u ≠ t → u.subtiles ratio resolution' pad' = .ok s' →
          ∀ v ∈ s.toList, v ∉ s'.toList := by
  obtain ⟨child, hchild, hdivisible, rfl⟩ := subtiles_eq_ok_iff.1 h
  have hpositive := ratio_pos_of_subdividedGrid hchild
  refine ⟨child, hchild, ?_⟩
  intro subtile
  have hgiven (k : ℕ) : (t.subdivision child ratio).toList[k]? =
      if k < ratio * ratio then some (subtile k) else none := by
    rw [Subtiles.getElem?_toList, show (t.subdivision child ratio).index = 0 from rfl, zero_add]
    rfl
  refine ⟨fun taken => ?_, fun k hk => ?_, fun i j => ?_, ?_⟩
  · intro rest
    have hstart : (t.subdivision child ratio).IsWithin := Nat.zero_le _
    have hrest : rest = (t.subdivision child ratio).drop taken := hstart.after_producer taken
    refine ⟨?_, hrest ▸ Subtiles.isWithin_drop _ _, ?_, fun k => ?_⟩
    · rw [hrest, Subtiles.remaining_drop]
      rfl
    · rw [hrest]
      calc ratio * ratio < 2 ^ 32 * 2 ^ 32 := Nat.mul_lt_mul'' hratio hratio
        _ = 2 ^ 64 := by decide
    · rw [Producer.ask_after, Subtiles.ask_producer, hgiven]
  · exact hdivisible.subtile_bounds ((hgiven k).trans (if_pos hk))
  · simp only [Subtiles.ask_producer, Int.fdiv_eq_ediv_of_nonneg _ (Int.natCast_nonneg ratio)]
    split
    · next hcell =>
      exact existsUnique_subtile (t := t) (u := ⟨child, t.zone, i, j⟩) hpositive rfl hcell.1 hcell.2
    · next hcell => exact fun k hk => hcell (div_of_getElem?_subdivision hk)
  · intro u resolution' pad' s' hgrid hzone hne hs' v hv hv'
    obtain ⟨child', -, -, rfl⟩ := subtiles_eq_ok_iff.1 hs'
    obtain ⟨hti, htj⟩ := indices_eq_of_mem_subdivisions hv hv'
    exact hne (Tile.ext hgrid hzone hti htj)

/-- Nine subtiles of a tile with indices that only just can be cut by three. -/
theorem subtiles_row_by_row_at_limits :
    ∃ s : Subtiles Float,
      subtiles ⟨⟨1.0, 3, 0⟩, 60, 3074457345618258601, -3074457345618258602⟩ 3 none none = .ok s ∧
      (Subtiles.producer.after s 9).remaining = 0 ∧
      ∀ k, Subtiles.producer.ask (Subtiles.producer.after s 9) k = none := by
  have hok : (subtiles (⟨⟨1.0, 3, 0⟩, 60, 3074457345618258601, -3074457345618258602⟩ : Tile Float)
      3 none none).isOk = true := by
    decide +kernel
  obtain ⟨s, hs⟩ := exists_eq_ok_of_isOk hok
  obtain ⟨child, -, hcalls, -⟩ := subtiles_row_by_row (by decide) hs
  obtain ⟨hremaining, -, -, hnone⟩ := hcalls 9
  exact ⟨s, hs, hremaining, fun k => (hnone k).trans (if_neg (by omega))⟩


/-! ## Subtiles by row and column -/

theorem getElem?_subdivision_of_lt {t : Tile α} {child : Grid α} {ratio row col : ℕ}
    (hrow : row < ratio) (hcol : col < ratio) :
    (t.subdivision child ratio).toList[row * ratio + col]? =
      some ⟨child, t.zone, t.ti * ratio + col, t.tj * ratio + (ratio - 1) - row⟩ := by
  have hratio : 0 < ratio := Nat.zero_lt_of_lt hcol
  obtain ⟨hdiv, hmod⟩ : (row * ratio + col) / ratio = row ∧ (row * ratio + col) % ratio = col :=
    (Nat.div_mod_unique hratio).2 ⟨by rw [add_comm, mul_comm], hcol⟩
  have hnumber : row * ratio + col < ratio * ratio :=
    Nat.lt_mul_of_div_lt (by rw [hdiv]; exact hrow) hratio
  rw [getElem?_subdivision, hdiv, hmod]
  exact ⟨hnumber, rfl, rfl, rfl, rfl⟩

section Places

variable [Scalar α] {t : Tile α} {ratio row col : ℕ} {resolution : Option α} {pad : Option ℕ}

theorem exists_fault_of_subdividedGrid {e : Error α}
    (h : t.subdividedGrid ratio resolution pad = .error e) : ∃ fault, e = .tile fault := by
  simp only [subdividedGrid, Grid.make] at h
  split_ifs at h <;> exact ⟨_, (Except.error.inj h).symm⟩

/-- Within the subdivision, a subtile is the one with its number, and if there are no subtiles then
the error is theirs. -/
theorem subtileAt_of_lt (hrow : row < ratio) (hcol : col < ratio) :
    (t.subtileAt ratio row col resolution pad).map some =
      (t.subtiles ratio resolution pad).map fun s => s.toList[row * ratio + col]? := by
  have hinside : ¬ (ratio ≤ row ∨ ratio ≤ col) := by omega
  unfold subtileAt subtiles
  cases t.subdividedGrid ratio resolution pad with
  | error e => rfl
  | ok child =>
    simp only [bind, Except.bind, if_neg hinside]
    cases hplace : t.upperLeft ratio with
    | error e => rfl
    | ok place =>
      obtain ⟨ti, tj⟩ := place
      obtain ⟨-, rfl, rfl⟩ := upperLeft_eq_ok_iff.1 hplace
      exact congrArg Except.ok (getElem?_subdivision_of_lt hrow hcol).symm

/-- Outside of the subdivision, the error is that of the grid or, if there is a grid, that of the
place. -/
theorem subtileAt_of_le (houtside : ratio ≤ row ∨ ratio ≤ col) :
    t.subtileAt ratio row col resolution pad =
      (t.subdividedGrid ratio resolution pad).bind fun _ =>
        .error (.pixel (.outsideSubdivision row col ratio)) := by
  unfold subtileAt
  simp only [if_pos houtside]
  rfl

end Places

/-- A subtile by row and column is the one that is handed out with their number, or both ways give
the same error. Its indices have 64 bits. No subtile lies outside of the subdivision, and the error
is about the place there exactly if the subtiles have a grid. -/
theorem subtileAt_eq_ask [Scalar α] (t : Tile α) (ratio row col : ℕ) (resolution : Option α)
    (pad : Option ℕ) :
    if row < ratio ∧ col < ratio then
      ((t.subtileAt ratio row col resolution pad).map some =
        (t.subtiles ratio resolution pad).map fun s =>
          Subtiles.producer.ask s (row * ratio + col)) ∧
      ∀ u, t.subtileAt ratio row col resolution pad = .ok u →
        (-2 ^ 63 ≤ u.ti ∧ u.ti ≤ 2 ^ 63 - 1) ∧ -2 ^ 63 ≤ u.tj ∧ u.tj ≤ 2 ^ 63 - 1
    else
      (∀ u, t.subtileAt ratio row col resolution pad ≠ .ok u) ∧
      ((∃ fault, t.subtileAt ratio row col resolution pad = .error (.pixel fault)) ↔
        ∃ child, t.subdividedGrid ratio resolution pad = .ok child) := by
  split
  · next hinside =>
    have hsame : (t.subtileAt ratio row col resolution pad).map some =
        (t.subtiles ratio resolution pad).map fun s => s.toList[row * ratio + col]? :=
      subtileAt_of_lt hinside.1 hinside.2
    simp only [Subtiles.ask_producer]
    refine ⟨hsame, fun u hu => ?_⟩
    rw [hu] at hsame
    cases hs : t.subtiles ratio resolution pad with
    | error e =>
      rw [hs] at hsame
      cases hsame
    | ok s =>
      rw [hs] at hsame
      obtain ⟨child, -, hdivisible, rfl⟩ := subtiles_eq_ok_iff.1 hs
      exact hdivisible.subtile_bounds (Except.ok.inj hsame).symm
  · next houtside =>
    rw [subtileAt_of_le (by omega)]
    cases hchild : t.subdividedGrid ratio resolution pad with
    | error e =>
      obtain ⟨fault, rfl⟩ := exists_fault_of_subdividedGrid hchild
      refine ⟨nofun, ?_, nofun⟩
      rintro ⟨_, h⟩
      cases h
    | ok child => exact ⟨nofun, fun _ => ⟨child, rfl⟩, fun _ => ⟨_, rfl⟩⟩

end Tile
end UtmTiles
