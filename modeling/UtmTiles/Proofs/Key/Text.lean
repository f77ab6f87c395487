import UtmTiles.Key.Basic
import UtmTiles.Text.Fields
import UtmTiles.Proofs.Decimal.Text

/-!
# The place in a key

The part of a tile key after its grid has three fields without colons in them, and each of them
tells its number. So tiles of one grid with the same key text lie at the same place
(`place_of_toText`).
-/

namespace UtmTiles

namespace TileKey

/-! ## Fields without separators -/

theorem colon_not_mem_toDigits (n : Nat) : ':' ∉ Nat.toDigits 10 n :=
  (Decimal.isDigits_toDigits n).not_mem (by decide)

theorem colon_not_mem_repr (n : Int) : ':' ∉ n.repr.toList :=
  (Decimal.isInteger_repr n).not_mem (by decide) (by decide)

theorem toList_zoneText (zone : Nat) :
    (zoneText zone).toList =
      if zone < 10 then '0' :: Nat.toDigits 10 zone else Nat.toDigits 10 zone := by
  unfold zoneText
  split
  · simp only [String.toList_append, Nat.toString_eq_repr, Nat.toList_repr]
    rfl
  · rw [Nat.toString_eq_repr, Nat.toList_repr]

theorem colon_not_mem_zoneText (zone : Nat) : ':' ∉ (zoneText zone).toList := by
  rw [toList_zoneText]
  split
  · exact List.not_mem_cons_of_ne_of_not_mem (by decide) (colon_not_mem_toDigits zone)
  · exact colon_not_mem_toDigits zone

/-! ## What the fields tell -/

theorem ofDigits_zoneText (zone : Nat) : Decimal.ofDigits (zoneText zone).toList = zone := by
  rw [toList_zoneText]
  split
  · rw [Decimal.ofDigits_zero_cons, Decimal.ofDigits_toDigits]
  · exact Decimal.ofDigits_toDigits zone

theorem zoneText_injective {z w : Nat} (h : (zoneText z).toList = (zoneText w).toList) : z = w := by
  rw [← ofDigits_zoneText z, h, ofDigits_zoneText]

/-- The fields of a key's place. -/
def placeFields (key : TileKey Float) : List (List Char) :=
  [(zoneText key.zone).toList, key.ti.repr.toList, key.tj.repr.toList]

theorem fields_place (key : TileKey Float) :
    Text.fields ':' (Text.joined ':' key.placeFields) = key.placeFields := by
  refine Text.fields_joined (List.cons_ne_nil _ _) fun field hfield => ?_
  simp only [placeFields, List.mem_cons, List.not_mem_nil, or_false] at hfield
  rcases hfield with rfl | rfl | rfl
  · exact colon_not_mem_zoneText _
  · exact colon_not_mem_repr _
  · exact colon_not_mem_repr _

theorem toList_toText (key : TileKey Float) :
    key.toText.toList = (gridText key.tilesize key.pad key.resolution).toList ++
      ':' :: Text.joined ':' key.placeFields := by
  simp only [toText, String.toList_append, Int.toString_eq_repr]
  simp [placeFields, Text.joined, toString]

/-- A key text tells the place of its tile, given the tile's grid. -/
theorem place_of_toText {k l : TileKey Float}
    (hgrid : gridText k.tilesize k.pad k.resolution = gridText l.tilesize l.pad l.resolution)
    (h : k.toText = l.toText) : k.zone = l.zone ∧ k.ti = l.ti ∧ k.tj = l.tj := by
  have htext := congrArg String.toList h
  rw [toList_toText, toList_toText, hgrid] at htext
  -- a resolution may be written in any way, as long as both keys write it alike
  have hplace := List.tail_eq_of_cons_eq (List.append_cancel_left htext)
  have hfields := congrArg (Text.fields ':') hplace
  rw [fields_place, fields_place] at hfields
  simp only [placeFields, List.cons.injEq, and_true] at hfields
  obtain ⟨hzone, hti, htj⟩ := hfields
  exact ⟨zoneText_injective hzone, Int.repr_inj.1 (String.toList_inj.1 hti),
    Int.repr_inj.1 (String.toList_inj.1 htj)⟩

end TileKey
end UtmTiles
