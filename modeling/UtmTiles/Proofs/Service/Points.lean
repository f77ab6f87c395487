import UtmTiles.Proofs.Decimal.Characters
import UtmTiles.Proofs.Partial
import UtmTiles.Service.Basic

/-!
# Lists of points and their records

Points that are written one after the other are read in the same order (`read_joined`). A text is
refused for its first piece that is no number, or else because the number of pieces is odd
(`read_eq_error_iff`). The records of some points are those of the single points, in order, and the
first point without a record leaves nothing of them (`Service.points_in_order_or_first_fault`).
-/

namespace UtmTiles
namespace Points

/-! ## Pairs of coordinates -/

/-- The coordinates of some points, one after the other. -/
def coordinates (ps : List (Point Float)) : List Float := ps.flatMap fun p => [p.x, p.y]

theorem coordinates_cons (p : Point Float) (ps : List (Point Float)) :
    coordinates (p :: ps) = p.x :: p.y :: coordinates ps := rfl

theorem length_coordinates (ps : List (Point Float)) : (coordinates ps).length = 2 * ps.length := by
  induction ps with
  | nil => rfl
  | cons p ps ih =>
    rw [coordinates_cons, List.length_cons, List.length_cons, ih, List.length_cons, Nat.mul_add]

theorem pairs_coordinates (ps : List (Point Float)) : pairs (coordinates ps) = ps := by
  induction ps with
  | nil => rfl
  | cons p ps ih => rw [coordinates_cons, pairs, ih]

/-- An even number of coordinates makes points. -/
theorem coordinates_pairs {xs : List Float} (h : xs.length % 2 = 0) :
    coordinates (pairs xs) = xs := by
  fun_induction pairs xs with
  | case1 x y rest ih =>
    simp only [List.length_cons] at h
    rw [coordinates_cons, ih (by omega)]
  | case2 xs hshort =>
    match xs with
    | [] => rfl
    | [x] => simp at h
    | x :: y :: rest => exact absurd rfl (hshort x y rest)

/-! ## Reading -/

/-- A piece of a text that is a number, with white space around it. -/
def IsNumber (piece : List Char) : Prop :=
  (Decimal.read? (String.ofList (Text.trim piece))).isSome = true

theorem coordinate_eq_ok_iff {piece : List Char} {x : Float} :
    coordinate piece = .ok x ↔ Decimal.read? (String.ofList (Text.trim piece)) = some x := by
  unfold coordinate
  cases Decimal.read? (String.ofList (Text.trim piece)) <;> simp

theorem exists_coordinate_eq_ok_iff {piece : List Char} :
    (∃ x, coordinate piece = .ok x) ↔ IsNumber piece := by
  simp only [coordinate_eq_ok_iff, IsNumber, Option.isSome_iff_exists]

theorem coordinate_eq_error_iff {piece : List Char} {fault : Fault} :
    coordinate piece = .error fault ↔
      ¬ IsNumber piece ∧ fault = .notNumber (String.ofList piece) := by
  unfold coordinate IsNumber
  cases Decimal.read? (String.ofList (Text.trim piece)) <;> simp [eq_comm]

theorem read_eq_ok_iff {text : String} {ps : List (Point Float)} :
    read text = .ok ps ↔
      (Text.fields ',' text.toList).map coordinate = (coordinates ps).map .ok := by
  rw [← mapM_eq_ok_iff, read, bind_eq_ok_iff]
  constructor
  · rintro ⟨xs, hxs, h⟩
    split at h
    · cases h
    · next heven =>
      cases h
      rw [coordinates_pairs (not_not.1 heven), hxs]
  · intro h
    refine ⟨coordinates ps, h, ?_⟩
    rw [length_coordinates, if_neg (not_not.2 (Nat.mul_mod_right 2 _)), pairs_coordinates]
    rfl

/-- A text is refused for the first of its pieces that is no number, or for the number of its
pieces. -/
theorem read_eq_error_iff {text : String} {fault : Fault} :
    read text = .error fault ↔
      FailsFirst coordinate (Text.fields ',' text.toList) fault ∨
      (∀ piece ∈ Text.fields ',' text.toList, IsNumber piece) ∧
        (Text.fields ',' text.toList).length % 2 = 1 ∧
        fault = .oddCount (Text.fields ',' text.toList).length := by
  simp only [← exists_coordinate_eq_ok_iff, ← exists_mapM_ok_iff]
  rw [← mapM_eq_error_iff, read, bind_eq_error_iff]
  refine or_congr_right ?_
  constructor
  · rintro ⟨xs, hxs, h⟩
    rw [length_of_mapM_eq_ok hxs] at h
    split at h
    · next hodd =>
      cases h
      exact ⟨⟨xs, hxs⟩, Nat.mod_two_ne_zero.1 hodd, rfl⟩
    · cases h
  · rintro ⟨⟨xs, hxs⟩, hodd, rfl⟩
    refine ⟨xs, hxs, ?_⟩
    rw [length_of_mapM_eq_ok hxs, if_pos (Nat.mod_two_ne_zero.2 hodd)]

/-! ## Written points -/

/-- The text of a number, with white space around it. -/
def IsWritten (piece : List Char) (x : Float) : Prop :=
  ∃ before cs after, piece = before ++ cs ++ after ∧
    (∀ c ∈ before, Text.isBlank c = true) ∧ (∀ c ∈ after, Text.isBlank c = true) ∧
    Decimal.read? (String.ofList cs) = some x

theorem coordinate_of_isWritten {piece : List Char} {x : Float} (h : IsWritten piece x) :
    coordinate piece = .ok x := by
  obtain ⟨before, cs, after, rfl, hbefore, hafter, hread⟩ := h
  rw [coordinate_eq_ok_iff, Decimal.trim_padded_of_read? hbefore hafter hread, hread]

theorem comma_not_mem_of_isWritten {piece : List Char} {x : Float} (h : IsWritten piece x) :
    ',' ∉ piece := by
  obtain ⟨before, cs, after, rfl, hbefore, hafter, hread⟩ := h
  have hblank : Text.isBlank ',' = false := by decide
  simp only [List.mem_append, not_or]
  refine ⟨⟨fun hc => ?_, Decimal.comma_not_mem_of_read? hread⟩, fun hc => ?_⟩
  · exact Bool.eq_false_iff.1 hblank (hbefore ',' hc)
  · exact Bool.eq_false_iff.1 hblank (hafter ',' hc)

theorem comma_not_mem_of_mem_written {pieces : List (List Char)} {xs : List Float}
    (h : List.Forall₂ IsWritten pieces xs) : ∀ piece ∈ pieces, ',' ∉ piece := by
  induction h with
  | nil => nofun
  | cons hpiece _ ih => exact List.forall_mem_cons.2 ⟨comma_not_mem_of_isWritten hpiece, ih⟩

theorem map_coordinate_of_written {pieces : List (List Char)} {xs : List Float}
    (h : List.Forall₂ IsWritten pieces xs) : pieces.map coordinate = xs.map .ok := by
  induction h with
  | nil => rfl
  | cons hpiece _ ih => rw [List.map_cons, List.map_cons, coordinate_of_isWritten hpiece, ih]

/-- Written points are read in order, however much white space there is around the numbers. -/
theorem read_joined {ps : List (Point Float)} {pieces : List (List Char)} (hne : ps ≠ [])
    (h : List.Forall₂ IsWritten pieces (coordinates ps)) :
    read (String.ofList (Text.joined ',' pieces)) = .ok ps := by
  have hsome : pieces ≠ [] := by
    rintro rfl
    obtain ⟨p, rest, rfl⟩ := List.exists_cons_of_ne_nil hne
    cases h
  rw [read_eq_ok_iff, String.toList_ofList,
    Text.fields_joined hsome (comma_not_mem_of_mem_written h), map_coordinate_of_written h]

end Points

namespace Service

/-- Written points are read in order, whatever white space stands around the numbers. A list of points
is refused with its first piece that is no number, or else with the number of its pieces if that is
odd, and in no other case. The records of some points are one for each, in order; if there is no
record of some of them, there are none at all, and the error is that of the first of these. -/
theorem points_in_order_or_first_fault (s : Service) :
    (∀ (ps : List (Point Float)) (pieces : List (List Char)), ps ≠ [] →
      List.Forall₂ Points.IsWritten pieces (Points.coordinates ps) →
      Points.read (String.ofList (Text.joined ',' pieces)) = .ok ps) ∧
    (∀ (text : String) (fault : Points.Fault), Points.read text = .error fault ↔
      (∃ before piece after, Text.fields ',' text.toList = before ++ piece :: after ∧
        (∀ earlier ∈ before, Points.IsNumber earlier) ∧ ¬ Points.IsNumber piece ∧
        fault = .notNumber (String.ofList piece)) ∨
      ((∀ piece ∈ Text.fields ',' text.toList, Points.IsNumber piece) ∧
        (Text.fields ',' text.toList).length % 2 = 1 ∧
        fault = .oddCount (Text.fields ',' text.toList).length)) ∧
    (∀ (ps : List (Point Float)) (records : List Record),
      s.recordsAt ps = .ok records ↔ ps.map s.recordAt = records.map .ok) ∧
    ∀ (ps : List (Point Float)) (e : ServiceFault), s.recordsAt ps = .error e ↔
      ∃ before p after, ps = before ++ p :: after ∧ (∀ q ∈ before, ∃ r, s.recordAt q = .ok r) ∧
        s.recordAt p = .error e := by
  refine ⟨fun ps pieces hne h => Points.read_joined hne h, fun text fault => ?_,
    fun ps records => mapM_eq_ok_iff, fun ps e => mapM_eq_error_iff⟩
  rw [Points.read_eq_error_iff]
  simp only [FailsFirst, Points.exists_coordinate_eq_ok_iff, Points.coordinate_eq_error_iff]

/-- Two points, with spaces and a tabulator around their numbers. -/
theorem points_in_order_or_first_fault_of_two :
    Points.read " 7.4,46.9,\t-122.5 ,37.7" = .ok [⟨7.4, 46.9⟩, ⟨-122.5, 37.7⟩] := by
  refine (points_in_order_or_first_fault (ofGrid ⟨10.0, 2048, 16⟩)).1 [⟨7.4, 46.9⟩, ⟨-122.5, 37.7⟩]
    [" 7.4".toList, "46.9".toList, "\t-122.5 ".toList, "37.7".toList] (List.cons_ne_nil _ _) ?_
  refine .cons ?_ (.cons ?_ (.cons ?_ (.cons ?_ .nil)))
  · exact ⟨[' '], "7.4".toList, [], rfl, List.forall_mem_singleton.2 rfl, List.forall_mem_nil _,
      by decide +kernel⟩
  · exact ⟨[], "46.9".toList, [], rfl, List.forall_mem_nil _, List.forall_mem_nil _,
      by decide +kernel⟩
  · exact ⟨['\t'], "-122.5".toList, [' '], rfl, List.forall_mem_singleton.2 rfl,
      List.forall_mem_singleton.2 rfl, by decide +kernel⟩
  · exact ⟨[], "37.7".toList, [], rfl, List.forall_mem_nil _, List.forall_mem_nil _,
      by decide +kernel⟩

end Service
end UtmTiles
