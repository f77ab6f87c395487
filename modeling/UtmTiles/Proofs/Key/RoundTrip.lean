import UtmTiles.Proofs.Decimal.Shortest
import UtmTiles.Proofs.Key.Reader
import UtmTiles.Proofs.Key.Text
import UtmTiles.Proofs.Tile.Place

/-!
# Keys read back

The written form of a key has six fields that say what the key is (`says_toText`), so it is read as
that key and belongs to no other. The key of a grid is read as the grid in the same way.
-/

namespace UtmTiles

open Binary64
open Decimal (IsDigits IsInteger IsDecimal isDigits_toDigits ofDigits_toDigits isInteger_toDigits)

/-! ## Written resolutions -/

theorem Decimal.plain_eq {x : Float} {p : Parts} (hp : parts? x = some p)
    (hsign : p.negative = false) (hpos : 0 < p.mantissa) :
    plain x = (shortest .upper p).positional .plain := by
  simp only [plain, render, hp, hsign, if_neg hpos.ne', Bool.false_eq_true, if_false]
  rfl

namespace TileKey

/-- A resolution is the double nearest to the number that its text says. -/
theorem isResolutionOf_resolutionText {x : Float} (hx : Grid.IsResolution x) :
    IsResolutionOf (resolutionText x).toList x := by
  obtain ⟨hfinite, hpositive⟩ := hx
  have hvalue : 0 < value x := (lt_iff rfl hfinite).1 hpositive
  obtain ⟨p, hp, hcanonical, hsign, hmantissa, hproduct⟩ := exists_parts_of_pos hfinite hvalue
  have htext := Decimal.isDecimal_positional
    (Decimal.digits_shortest_pos hcanonical hmantissa .upper)
  rw [← Decimal.plain_eq hp hsign hmantissa] at htext
  have hrounded := Decimal.rounded_shortest hcanonical hmantissa .upper
  exact ⟨_, htext, ⟨hfinite, hproduct.trans hrounded.symm⟩, hvalue⟩

/-! ## Fields without colons -/

theorem colon_not_mem_of_isInteger {cs : List Char} {n : ℤ} (h : IsInteger cs n) : ':' ∉ cs := by
  cases h with
  | digits h => exact h.not_mem (by decide)
  | minus h => exact List.not_mem_cons_of_ne_of_not_mem (by decide) (h.not_mem (by decide))

theorem colon_not_mem_of_isDecimal {cs : List Char} {q : ℚ} (h : IsDecimal cs q) : ':' ∉ cs := by
  cases h with
  | whole h => exact h.not_mem (by decide)
  | fraction hd hf =>
    rw [List.mem_append, List.mem_cons]
    rintro (hmem | heq | hmem)
    · exact hd.not_mem (by decide) hmem
    · exact absurd heq (by decide)
    · exact hf.not_mem (by decide) hmem

/-- Fields that say something are cut apart again. -/
theorem FieldTexts.Says.fields_joined {f : FieldTexts} {key : TileKey Float} (h : f.Says key) :
    Text.fields ':' (Text.joined ':' f.toList) = f.toList := by
  refine Text.fields_joined (List.cons_ne_nil _ _) fun field hfield => ?_
  obtain ⟨q, hdecimal, -⟩ := h.resolution
  simp only [FieldTexts.toList, List.mem_cons, List.not_mem_nil, or_false] at hfield
  rcases hfield with rfl | rfl | rfl | rfl | rfl | rfl
  · exact colon_not_mem_of_isInteger h.tilesize.1
  · exact colon_not_mem_of_isInteger h.pad.1
  · exact colon_not_mem_of_isDecimal hdecimal
  · exact colon_not_mem_of_isInteger h.zone.1
  · exact colon_not_mem_of_isInteger h.ti.1
  · exact colon_not_mem_of_isInteger h.tj.1

/-! ## Written keys -/

/-- The numbers that a key may have. -/
structure IsValid (key : TileKey Float) : Prop where
  tilesize : 1 ≤ key.tilesize ∧ key.tilesize ≤ 4294967295
  pad : key.pad ≤ 4294967295
  resolution : Grid.IsResolution key.resolution
  zone : 1 ≤ key.zone ∧ key.zone ≤ 60
  ti : -2 ^ 63 ≤ key.ti ∧ key.ti ≤ 2 ^ 63 - 1
  tj : -2 ^ 63 ≤ key.tj ∧ key.tj ≤ 2 ^ 63 - 1

/-- The fields of the written form of a key. -/
def fieldTexts (key : TileKey Float) : FieldTexts where
  tilesize := Nat.toDigits 10 key.tilesize
  pad := Nat.toDigits 10 key.pad
  resolution := (resolutionText key.resolution).toList
  zone := (zoneText key.zone).toList
  ti := key.ti.repr.toList
  tj := key.tj.repr.toList

theorem toList_gridText (tilesize pad : ℕ) (resolution : Float) :
    (gridText tilesize pad resolution).toList = Text.joined ':'
      [Nat.toDigits 10 tilesize, Nat.toDigits 10 pad, (resolutionText resolution).toList] := by
  simp only [gridText, String.toList_append, Nat.toString_eq_repr, Nat.toList_repr]
  simp [Text.joined, toString]

theorem toList_toText_eq_joined (key : TileKey Float) :
    key.toText.toList = Text.joined ':' key.fieldTexts.toList := by
  rw [toList_toText, toList_gridText]
  simp [Text.joined, placeFields, fieldTexts, FieldTexts.toList]

theorem isInteger_zoneText (zone : ℕ) : IsInteger (zoneText zone).toList zone := by
  have hdigits : IsDigits (zoneText zone).toList := by
    rw [toList_zoneText]
    split
    · exact Decimal.isDigits_zero.append (isDigits_toDigits zone).isDigit
    · exact isDigits_toDigits zone
  have h := IsInteger.digits hdigits
  rwa [ofDigits_zoneText] at h

theorem says_fieldTexts {key : TileKey Float} (h : key.IsValid) : key.fieldTexts.Says key where
  tilesize := ⟨isInteger_toDigits _, by exact_mod_cast h.tilesize.1, by exact_mod_cast h.tilesize.2⟩
  pad := ⟨isInteger_toDigits _, Int.natCast_nonneg _, by exact_mod_cast h.pad⟩
  resolution := isResolutionOf_resolutionText h.resolution
  zone := ⟨isInteger_zoneText _, by exact_mod_cast h.zone.1, by exact_mod_cast h.zone.2⟩
  ti := ⟨Decimal.isInteger_repr _, h.ti⟩
  tj := ⟨Decimal.isInteger_repr _, h.tj⟩

/-- The written form of a key is read as the key. -/
theorem read_toText {key : TileKey Float} (h : key.IsValid) : read key.toText = .ok key := by
  have htexts := says_fieldTexts h
  refine read_eq_ok_iff.2 ⟨key.fieldTexts, ?_, htexts⟩
  rw [toList_toText_eq_joined, htexts.fields_joined]

/-- Valid keys with the same written form are the same. -/
theorem eq_of_toText_eq {k l : TileKey Float} (hk : k.IsValid) (hl : l.IsValid)
    (h : k.toText = l.toText) : k = l := by
  have hread := read_toText hk
  rw [h, read_toText hl] at hread
  exact (Except.ok.inj hread).symm

/-! ## Written grids -/

theorem fields_gridText (tilesize pad : ℕ) {resolution : Float}
    (h : Grid.IsResolution resolution) :
    Text.fields ':' (gridText tilesize pad resolution).toList =
      [Nat.toDigits 10 tilesize, Nat.toDigits 10 pad, (resolutionText resolution).toList] := by
  rw [toList_gridText]
  refine Text.fields_joined (List.cons_ne_nil _ _) fun field hfield => ?_
  obtain ⟨q, hdecimal, -⟩ := isResolutionOf_resolutionText h
  simp only [List.mem_cons, List.not_mem_nil, or_false] at hfield
  rcases hfield with rfl | rfl | rfl
  · exact colon_not_mem_toDigits _
  · exact colon_not_mem_toDigits _
  · exact colon_not_mem_of_isDecimal hdecimal

end TileKey

/-- The written form of a grid is read as the grid. -/
theorem Grid.ofText_toText {resolution : Float} {tilesize pad : ℕ} {g : Grid Float}
    (h : make resolution tilesize pad = .ok g) : ofText g.toText = .ok g := by
  obtain ⟨htilesize, hresolution, hraster, rfl⟩ := make_eq_ok_iff.1 h
  change tilesize + 2 * pad ≤ 4294967295 at hraster
  have hsize : TileKey.readTilesize (Nat.toDigits 10 tilesize) = .ok tilesize :=
    ((TileKey.reads_tilesize _).ok_iff _).2 ⟨isInteger_toDigits _, by omega, by omega⟩
  have hpad : TileKey.readPad (Nat.toDigits 10 pad) = .ok pad :=
    ((TileKey.reads_pad _).ok_iff _).2 ⟨isInteger_toDigits _, by omega, by omega⟩
  have hmeters := ((TileKey.reads_resolution _).ok_iff _).2
    (TileKey.isResolutionOf_resolutionText hresolution)
  unfold ofText toText
  rw [TileKey.fields_gridText tilesize pad hresolution]
  simp only [hsize, hpad, hmeters]
  exact h

namespace TileKey

/-- Keys with numbers in their ranges, up to the ends of these, are read back from their written
form, so that no two of them have the same one. So are all grids. -/
theorem written_form_is_read_back :
    (∀ key : TileKey Float, key.IsValid → read key.toText = .ok key) ∧
      (∀ k l : TileKey Float, k.IsValid → l.IsValid → k.toText = l.toText → k = l) ∧
      ∀ (resolution : Float) (tilesize pad : ℕ) (g : Grid Float),
        Grid.make resolution tilesize pad = .ok g → Grid.ofText g.toText = .ok g :=
  ⟨fun _ h => read_toText h, fun _ _ hk hl h => eq_of_toText_eq hk hl h,
    fun _ _ _ _ h => Grid.ofText_toText h⟩

/-- The key of a tile at the last place there is. -/
theorem written_form_is_read_back_at_last_place :
    read (toText ⟨4294967295, 4294967295, 0.1, 60, -2 ^ 63, 2 ^ 63 - 1⟩) =
      .ok ⟨4294967295, 4294967295, 0.1, 60, -2 ^ 63, 2 ^ 63 - 1⟩ :=
  written_form_is_read_back.1 _ ⟨by decide, by decide, by decide, by decide, by decide, by decide⟩

end TileKey
end UtmTiles
