import Mathlib.Data.List.Rotate
import UtmTiles.Proofs.Plane.Winding
import UtmTiles.Proofs.Utm.World

/-!
# Footprints around a pole

The chain of a box's corners leads once around the world, from its western end to its eastern one
(`Utm.Spans`). With a cap beyond the pole it is a ring that turns around the positions between the
chain and the pole, and around no position on the other side of the chain (`Utm.Spans.turns_north`,
`Utm.Spans.turns_south`). The chain enters the world at the latitude at which it leaves it, so the
ring has no step at the antimeridian.
-/

namespace UtmTiles
namespace Utm

variable {corners : List (Point ℝ)}

theorem capLat_real : (capLat : ℝ) = 91 := by norm_num [capLat]

/-! ## Chains -/

/-- Some corners of the world in the order of their longitudes, with the last one a turn further west
before them and the first one a turn further east behind them. -/
structure Spans (corners : List (Point ℝ)) (west : Point ℝ) (sorted : List (Point ℝ))
    (east : Point ℝ) : Prop where
  perm : sorted.Perm corners
  eastward : (west :: sorted ++ [east]).Pairwise fun p q => p.x ≤ q.x
  west_eq : sorted.getLast?.map westOf = some west
  east_eq : sorted.head?.map eastOf = some east
  west_le : west.x ≤ -180
  le_east : 180 ≤ east.x
  lats : ∀ p ∈ west :: sorted ++ [east], -90 ≤ p.y ∧ p.y ≤ 90

theorem sorted_eastward (corners : List (Point ℝ)) :
    (corners.mergeSort fun p q => !decide (q.x < p.x)).Pairwise fun p q => p.x ≤ q.x := by
  have hle : ∀ p q : Point ℝ, (!decide (q.x < p.x)) = true ↔ p.x ≤ q.x := by simp
  have htrans : ∀ p q r : Point ℝ, (!decide (q.x < p.x)) = true → (!decide (r.x < q.x)) = true →
      (!decide (r.x < p.x)) = true := by
    intro p q r hpq hqr
    rw [hle] at hpq hqr ⊢
    exact hpq.trans hqr
  have htotal : ∀ p q : Point ℝ, ((!decide (q.x < p.x)) || (!decide (p.x < q.x))) = true := by
    intro p q
    rw [Bool.or_eq_true, hle, hle]
    exact le_total p.x q.x
  exact (List.pairwise_mergeSort htrans htotal corners).imp fun h => (hle _ _).1 h

theorem exists_spans (hne : corners ≠ []) (hworld : ∀ p ∈ corners, (world : Box ℝ).Contains p) :
    ∃ west sorted east, chain corners = west :: sorted ++ [east] ∧ Spans corners west sorted east := by
  obtain ⟨sorted, hsort⟩ : ∃ sorted, corners.mergeSort (fun p q => !decide (q.x < p.x)) = sorted :=
    ⟨_, rfl⟩
  have hperm : sorted.Perm corners := hsort ▸ List.mergeSort_perm _ _
  have heastward : sorted.Pairwise fun p q => p.x ≤ q.x := hsort ▸ sorted_eastward corners
  have hnonempty : sorted ≠ [] := fun h => hne (List.nil_perm.1 (h ▸ hperm))
  obtain ⟨first, hfirst⟩ : ∃ first, sorted.head? = some first :=
    ⟨_, List.head?_eq_some_head hnonempty⟩
  obtain ⟨last, hlast⟩ : ∃ last, sorted.getLast? = some last :=
    ⟨_, List.getLast?_eq_some_getLast hnonempty⟩
  have hbounds : ∀ p ∈ sorted, (-180 ≤ p.x ∧ p.x ≤ 180) ∧ (-90 ≤ p.y ∧ p.y ≤ 90) :=
    fun p hp => world_contains_iff.1 (hworld p (hperm.mem_iff.1 hp))
  have hfirstbounds := hbounds first (List.mem_of_head? hfirst)
  have hlastbounds := hbounds last (List.mem_of_getLast? hlast)
  have hwest : (westOf last).x = last.x - 360 := by rw [westOf, turn_real]
  have heast : (eastOf first).x = first.x + 360 := by rw [eastOf, turn_real]
  refine ⟨westOf last, sorted, eastOf first, ?_, hperm, ?_, ?_, ?_, ?_, ?_, ?_⟩
  · simp only [chain, hsort, hfirst, hlast]
  · rw [List.cons_append, List.pairwise_cons, List.pairwise_append]
    refine ⟨fun q hq => ?_, heastward, List.pairwise_singleton _ _, fun p hp q hq => ?_⟩
    · rcases List.mem_append.1 hq with hq | hq
      · linarith [(hbounds q hq).1]
      · rw [List.mem_singleton.1 hq]
        linarith
    · rw [List.mem_singleton.1 hq]
      linarith [(hbounds p hp).1]
  · rw [hlast, Option.map_some]
  · rw [hfirst, Option.map_some]
  · linarith
  · linarith
  · simp only [List.mem_append, List.mem_cons, List.not_mem_nil, or_false]
    rintro p ((rfl | hp) | rfl)
    · exact hlastbounds.2
    · exact (hbounds p hp).2
    · exact hfirstbounds.2

/-! ## Capped chains -/

theorem closed_eq_append {points : List (Point ℝ)} {first last : Point ℝ}
    (hfirst : points.head? = some first) (hlast : points.getLast? = some last)
    (hne : first.y ≠ last.y) : Ring.closed points = points ++ [first] := by
  have hopen : first.same last = false := by
    rw [Point.same, Bool.and_eq_false_iff]
    exact Or.inr (Bool.eq_false_iff.2 fun h => hne (Scalar.same_real.1 h))
  cases points with
  | nil => cases hfirst
  | cons p rest =>
    obtain rfl : p = first := Option.some.inj hfirst
    simp only [Ring.closed, hlast, hopen, Bool.false_eq_true, if_false]

/-- The edges of a path that is closed at some latitude. -/
theorem segments_closed_capped {first last : Point ℝ} (inner : List (Point ℝ)) {lat : ℝ}
    (hfirst : first.y ≠ lat) :
    Ring.segments (Ring.closed (first :: inner ++ [last] ++ [⟨last.x, lat⟩, ⟨first.x, lat⟩])) =
      Ring.segments (first :: inner ++ [last]) ++
        [(last, ⟨last.x, lat⟩), (⟨last.x, lat⟩, ⟨first.x, lat⟩), (⟨first.x, lat⟩, first)] := by
  have hend : (first :: inner ++ [last] ++ [(⟨last.x, lat⟩ : Point ℝ), ⟨first.x, lat⟩]).getLast? =
      some ⟨first.x, lat⟩ := List.getLast?_append_of_ne_nil _ (List.cons_ne_nil _ _)
  rw [closed_eq_append (by rfl) hend hfirst, List.append_assoc, List.append_assoc]
  exact Ring.segments_append (first :: inner) _ last ⟨last.x, lat⟩

/-- A cap lies on the meridians of the path's ends and at its own latitude. -/
theorem cap_holds {first last p : Point ℝ} {lat : ℝ}
    (h : ∃ e ∈ [(last, ⟨last.x, lat⟩), (⟨last.x, lat⟩, ⟨first.x, lat⟩), (⟨first.x, lat⟩, first)],
      Segment.holds e p = true) : p.x = first.x ∨ p.x = last.x ∨ p.y = lat := by
  obtain ⟨e, he, hheld⟩ := h
  simp only [List.mem_cons, List.not_mem_nil, or_false] at he
  rcases he with rfl | rfl | rfl <;> obtain ⟨hx, hy⟩ := between_of_holds hheld
  · exact Or.inr (Or.inl (by rcases hx with hx | hx <;> exact le_antisymm hx.2 hx.1))
  · exact Or.inr (Or.inr (by rcases hy with hy | hy <;> exact le_antisymm hy.2 hy.1))
  · exact Or.inl (by rcases hx with hx | hx <;> exact le_antisymm hx.2 hx.1)

namespace Spans

variable {west east p a b : Point ℝ} {sorted : List (Point ℝ)}

/-- The chain, closed by a cap beyond the north pole. -/
noncomputable def northern (west : Point ℝ) (sorted : List (Point ℝ)) (east : Point ℝ) : Ring ℝ :=
  Ring.closed (west :: sorted ++ [east] ++ [⟨east.x, 91⟩, ⟨west.x, 91⟩])

/-- The chain, taken back to the west and closed by a cap beyond the south pole. -/
noncomputable def southern (west : Point ℝ) (sorted : List (Point ℝ)) (east : Point ℝ) : Ring ℝ :=
  Ring.closed ((west :: sorted ++ [east]).reverse ++ [⟨west.x, -91⟩, ⟨east.x, -91⟩])

theorem segments_northern (h : Spans corners west sorted east) :
    Ring.segments (northern west sorted east) = Ring.segments (west :: sorted ++ [east]) ++
      [(east, ⟨east.x, 91⟩), (⟨east.x, 91⟩, ⟨west.x, 91⟩), (⟨west.x, 91⟩, west)] := by
  refine segments_closed_capped sorted ?_
  linarith [(h.lats west List.mem_cons_self).2]

theorem segments_southern (h : Spans corners west sorted east) :
    Ring.segments (southern west sorted east) = Ring.segments (west :: sorted ++ [east]).reverse ++
      [(west, ⟨west.x, -91⟩), (⟨west.x, -91⟩, ⟨east.x, -91⟩), (⟨east.x, -91⟩, east)] := by
  have hreverse : (west :: sorted ++ [east]).reverse = east :: sorted.reverse ++ [west] := by simp
  rw [southern, hreverse]
  refine segments_closed_capped sorted.reverse ?_
  linarith [(h.lats east (by simp)).1]

theorem last_eq (west : Point ℝ) (sorted : List (Point ℝ)) (east : Point ℝ) :
    (west :: sorted ++ [east]).getLast? = some east := List.getLast?_concat

theorem le_east_of_mem (h : Spans corners west sorted east) {q : Point ℝ}
    (hq : q ∈ west :: sorted ++ [east]) : q.x ≤ east.x := by
  rcases List.mem_append.1 hq with hq | hq
  · exact (List.pairwise_append.1 h.eastward).2.2 q hq east (List.mem_singleton_self _)
  · rw [List.mem_singleton.1 hq]

theorem west_le_of_mem (h : Spans corners west sorted east) {q : Point ℝ}
    (hq : q ∈ west :: sorted ++ [east]) : west.x ≤ q.x := by
  rcases List.mem_cons.1 hq with rfl | hq
  · exact le_rfl
  · exact (List.pairwise_cons.1 h.eastward).1 q hq

section Crossing

variable (h : Spans corners west sorted east) (hp : (world : Box ℝ).Contains p)
  (hmem : (a, b) ∈ Ring.segments (west :: sorted ++ [east])) (ha : a.x ≤ p.x) (hb : p.x < b.x)

include h hp hmem ha hb

/-- The northern ring turns around a position once if the chain does not pass over it. -/
theorem turns_north : Turns p (Ring.segments (northern west sorted east)) (1 - overCount p a b) := by
  obtain ⟨-, hsouth, hnorth⟩ := world_contains_iff.1 hp
  have hwest : west.x ≤ p.x := (h.west_le_of_mem (Ring.mem_of_mem_segments hmem).1).trans ha
  have heast : p.x < east.x := hb.trans_le (h.le_east_of_mem (Ring.mem_of_mem_segments hmem).2)
  have hcap : overCount p ⟨west.x, 91⟩ ⟨east.x, 91⟩ = 1 := overCount_of_lt <|
    turn_eq_lt_of_over hwest heast (by linarith) (by linarith)
  have hchain := (turns_of_crossing h.eastward (last_eq west sorted east) hmem ha hb).1
  have hup : Turns p [(east, ⟨east.x, 91⟩)] (higher p ⟨east.x, 91⟩ - higher p east) :=
    Turns.singleton (Or.inr (windingStep?_east heast heast))
  have hback : Turns p [(⟨east.x, 91⟩, ⟨west.x, 91⟩)] (1 - higher p ⟨east.x, 91⟩) :=
    hcap ▸ Turns.singleton (windingStep?_westward_cases hwest heast)
  have hdown : Turns p [(⟨west.x, 91⟩, west)] 0 := Turns.singleton (windingStep?_west hwest hwest)
  rw [h.segments_northern]
  exact (hchain.append (hup.append (hback.append hdown))).congr (by ring)

/-- The southern ring turns around a position once if the chain passes over it. -/
theorem turns_south : Turns p (Ring.segments (southern west sorted east)) (overCount p a b) := by
  obtain ⟨-, hsouth, hnorth⟩ := world_contains_iff.1 hp
  have hwest : west.x ≤ p.x := (h.west_le_of_mem (Ring.mem_of_mem_segments hmem).1).trans ha
  have heast : p.x < east.x := hb.trans_le (h.le_east_of_mem (Ring.mem_of_mem_segments hmem).2)
  have hcap : overCount p ⟨west.x, -91⟩ ⟨east.x, -91⟩ = 0 := overCount_of_ne <|
    turn_ne_lt_of_le hwest heast (by linarith) (by linarith)
  have hchain := (turns_of_crossing h.eastward (last_eq west sorted east) hmem ha hb).2
  have hdown : Turns p [(west, ⟨west.x, -91⟩)] 0 := Turns.singleton (windingStep?_west hwest hwest)
  have hforth : Turns p [(⟨west.x, -91⟩, ⟨east.x, -91⟩)] (higher p ⟨east.x, -91⟩ - 0) :=
    hcap ▸ Turns.singleton (windingStep?_eastward hwest heast)
  have hup : Turns p [(⟨east.x, -91⟩, east)] (higher p east - higher p ⟨east.x, -91⟩) :=
    Turns.singleton (Or.inr (windingStep?_east heast heast))
  rw [h.segments_southern]
  exact (hchain.append (hdown.append (hforth.append hup))).congr (by ring)

end Crossing

theorem mem_segments_first {first : Point ℝ} (west east : Point ℝ)
    (hfirst : sorted.head? = some first) : (west, first) ∈ Ring.segments (west :: sorted ++ [east]) := by
  obtain ⟨rest, rfl⟩ := List.head?_eq_some_iff.1 hfirst
  exact List.mem_cons_self

theorem mem_segments_last {last : Point ℝ} (west east : Point ℝ)
    (hlast : sorted.getLast? = some last) : (last, east) ∈ Ring.segments (west :: sorted ++ [east]) := by
  obtain ⟨init, rfl⟩ := List.getLast?_eq_some_iff.1 hlast
  have hline : west :: (init ++ [last]) ++ [east] = west :: init ++ last :: east :: [] := by simp
  rw [hline, Ring.segments_append]
  exact List.mem_append_right _ List.mem_cons_self

theorem segments_northern_ne_nil (h : Spans corners west sorted east) :
    Ring.segments (northern west sorted east) ≠ [] := by
  rw [h.segments_northern]
  exact List.append_ne_nil_of_right_ne_nil _ (List.cons_ne_nil _ _)

theorem segments_southern_ne_nil (h : Spans corners west sorted east) :
    Ring.segments (southern west sorted east) ≠ [] := by
  rw [h.segments_southern]
  exact List.append_ne_nil_of_right_ne_nil _ (List.cons_ne_nil _ _)

/-- The chain passes the meridian of a position at another one, which tells whether the rings reach
the position. -/
structure Faces (west : Point ℝ) (sorted : List (Point ℝ)) (east p q : Point ℝ) : Prop where
  passes : Ring.PassesThrough (west :: sorted ++ [east]) q
  same_lon : q.x = p.x
  north_outside : Ring.locate (northern west sorted east) p = .outside → p.y < q.y
  north_inside : Ring.locate (northern west sorted east) p = .inside → q.y ≤ p.y
  south_outside : Ring.locate (southern west sorted east) p = .outside → q.y < p.y
  south_inside : Ring.locate (southern west sorted east) p = .inside → p.y ≤ q.y

theorem faces_of_crossing (h : Spans corners west sorted east) (hp : (world : Box ℝ).Contains p)
    (hmem : (a, b) ∈ Ring.segments (west :: sorted ++ [east])) (ha : a.x ≤ p.x) (hb : p.x < b.x) :
    Faces west sorted east p ⟨p.x, heightAt a b p.x⟩ := by
  have hab : a.x < b.x := ha.trans_lt hb
  have hnorthern := h.turns_north hp hmem ha hb
  have hsouthern := h.turns_south hp hmem ha hb
  have hover : overCount p a b = if p.y < heightAt a b p.x then 1 else 0 := overCount_eq hab
  refine ⟨⟨_, hmem, (holds_iff_eq_heightAt ha hb).2 rfl⟩, rfl, fun hout => ?_, fun hin => ?_,
    fun hout => ?_, fun hin => ?_⟩
  · have hzero := hnorthern.eq_zero_of_outside h.segments_northern_ne_nil hout
    by_contra hle
    rw [hover, if_neg hle] at hzero
    cases hzero
  · have hone := hnorthern.ne_zero_of_inside h.segments_northern_ne_nil hin
    by_contra hlt
    rw [hover, if_pos (not_le.1 hlt)] at hone
    exact hone rfl
  · have hzero := hsouthern.eq_zero_of_outside h.segments_southern_ne_nil hout
    have hle : heightAt a b p.x ≤ p.y := by
      by_contra hlt
      rw [hover, if_pos (not_le.1 hlt)] at hzero
      cases hzero
    refine lt_of_le_of_ne hle fun heq => ?_
    -- taken back to the west, the edge holds all of its points
    have hturn : a.turn b p = .eq := by rw [turn_eq_cmp_heightAt hab, cmp_eq_eq_iff, ← heq]
    have hon : Ring.locate (southern west sorted east) p = .boundary := by
      refine (Ring.locate_eq_boundary_iff h.segments_southern_ne_nil).2 ⟨(b, a), ?_, ?_⟩
      · rw [h.segments_southern]
        exact List.mem_append_left _ (Ring.mem_segments_reverse hmem)
      · rw [windingStep?_westward ha hb, if_pos hturn]
    cases hout.symm.trans hon
  · have hone := hsouthern.ne_zero_of_inside h.segments_southern_ne_nil hin
    by_contra hlt
    rw [hover, if_neg fun hy => hlt hy.le] at hone
    exact hone rfl

/-- No edge of a capped chain leads further east than its end. -/
theorem turns_east_end (h : Spans corners west sorted east) (hp : p.x = east.x) :
    Turns p (Ring.segments (northern west sorted east)) 0 ∧
      Turns p (Ring.segments (southern west sorted east)) 0 := by
  have hwest : west.x ≤ p.x := hp ▸ h.le_east_of_mem List.mem_cons_self
  have hchain : ∀ q ∈ west :: sorted ++ [east], q.x ≤ p.x := fun q hq => hp ▸ h.le_east_of_mem hq
  rw [h.segments_northern, h.segments_southern]
  constructor <;> refine turns_west (List.forall_mem_append.2 ⟨fun ⟨a, b⟩ he => ?_, ?_⟩)
  · obtain ⟨ha, hb⟩ := Ring.mem_of_mem_segments he
    exact ⟨hchain a ha, hchain b hb⟩
  · simp [hwest, hp.ge]
  · obtain ⟨ha, hb⟩ := Ring.mem_of_mem_segments he
    exact ⟨hchain a (List.mem_reverse.1 ha), hchain b (List.mem_reverse.1 hb)⟩
  · simp [hwest, hp.ge]

theorem faces_east_end (h : Spans corners west sorted east) (hp : (world : Box ℝ).Contains p)
    (heast : p.x = east.x) : Faces west sorted east p east := by
  obtain ⟨-, hsouth, hnorth⟩ := world_contains_iff.1 hp
  obtain ⟨hnorthern, hsouthern⟩ := h.turns_east_end heast
  obtain ⟨last, hlast⟩ : ∃ last, sorted.getLast? = some last := by
    obtain ⟨last, hlast, -⟩ := Option.map_eq_some_iff.1 h.west_eq
    exact ⟨last, hlast⟩
  refine ⟨⟨_, mem_segments_last west east hlast, holds_right last east⟩, heast.symm, fun hout => ?_,
    fun hin => ?_, fun hout => ?_, fun hin => ?_⟩
  · by_contra hle
    have hon : Ring.locate (northern west sorted east) p = .boundary := by
      refine (Ring.locate_eq_boundary_iff h.segments_northern_ne_nil).2 ⟨(east, ⟨east.x, 91⟩), ?_, ?_⟩
      · rw [h.segments_northern]
        exact List.mem_append_right _ List.mem_cons_self
      · exact windingStep?_upward heast.symm heast.symm (not_lt.1 hle) (by linarith)
    cases hout.symm.trans hon
  · exact absurd rfl (hnorthern.ne_zero_of_inside h.segments_northern_ne_nil hin)
  · by_contra hle
    have hon : Ring.locate (southern west sorted east) p = .boundary := by
      refine (Ring.locate_eq_boundary_iff h.segments_southern_ne_nil).2 ⟨(⟨east.x, -91⟩, east), ?_, ?_⟩
      · rw [h.segments_southern]
        exact List.mem_append_right _ (by simp)
      · exact windingStep?_upward heast.symm heast.symm (by linarith) (not_lt.1 hle)
    cases hout.symm.trans hon
  · exact absurd rfl (hsouthern.ne_zero_of_inside h.segments_southern_ne_nil hin)

theorem exists_faces (h : Spans corners west sorted east) (hp : (world : Box ℝ).Contains p) :
    ∃ q, Faces west sorted east p q := by
  obtain ⟨⟨hlow, hhigh⟩, -⟩ := world_contains_iff.1 hp
  rcases (hhigh.trans h.le_east).lt_or_eq with heast | heast
  · obtain ⟨a, b, hmem, ha, hb⟩ :=
      exists_crossing rfl (last_eq west sorted east) (h.west_le.trans hlow) heast
    exact ⟨_, h.faces_of_crossing hp hmem ha hb⟩
  · exact ⟨_, h.faces_east_end hp heast⟩

theorem lat_of_passesThrough (h : Spans corners west sorted east)
    (hp : Ring.PassesThrough (west :: sorted ++ [east]) p) : -90 ≤ p.y ∧ p.y ≤ 90 := by
  obtain ⟨⟨a, b⟩, hmem, hheld⟩ := hp
  obtain ⟨hlowa, hhigha⟩ := h.lats a (Ring.mem_of_mem_segments hmem).1
  obtain ⟨hlowb, hhighb⟩ := h.lats b (Ring.mem_of_mem_segments hmem).2
  rcases (between_of_holds hheld).2 with hy | hy <;> constructor <;> linarith [hy.1, hy.2]

/-- The rings reach their poles at every longitude. -/
theorem locate_pole (h : Spans corners west sorted east) {lon : ℝ} (hlow : -180 ≤ lon)
    (hhigh : lon ≤ 180) :
    Ring.locate (northern west sorted east) ⟨lon, 90⟩ ≠ .outside ∧
      Ring.locate (southern west sorted east) ⟨lon, -90⟩ ≠ .outside := by
  constructor <;> intro hout
  · obtain ⟨q, hfaces⟩ := h.exists_faces (p := ⟨lon, 90⟩)
      (world_contains_iff.2 ⟨⟨hlow, hhigh⟩, by norm_num, le_rfl⟩)
    exact (hfaces.north_outside hout).not_ge (h.lat_of_passesThrough hfaces.passes).2
  · obtain ⟨q, hfaces⟩ := h.exists_faces (p := ⟨lon, -90⟩)
      (world_contains_iff.2 ⟨⟨hlow, hhigh⟩, le_rfl, by norm_num⟩)
    exact (hfaces.south_outside hout).not_ge (h.lat_of_passesThrough hfaces.passes).1

/-- Strictly between the ends of a chain, only the chain itself bounds the rings in the world. -/
theorem passesThrough_of_boundary (h : Spans corners west sorted east)
    (hp : (world : Box ℝ).Contains p) (hwest : west.x < p.x) (heast : p.x < east.x)
    (hon : Ring.locate (northern west sorted east) p = .boundary ∨
      Ring.locate (southern west sorted east) p = .boundary) :
    Ring.PassesThrough (west :: sorted ++ [east]) p := by
  obtain ⟨-, hsouth, hnorth⟩ := world_contains_iff.1 hp
  rcases hon with hon | hon
  · obtain ⟨e, he, hheld⟩ := Ring.passesThrough_of_locate h.segments_northern_ne_nil hon
    rw [h.segments_northern] at he
    rcases List.mem_append.1 he with he | he
    · exact ⟨e, he, hheld⟩
    · rcases cap_holds ⟨e, he, hheld⟩ with hx | hx | hy <;> linarith
  · obtain ⟨e, he, hheld⟩ := Ring.passesThrough_of_locate h.segments_southern_ne_nil hon
    rw [h.segments_southern] at he
    rcases List.mem_append.1 he with he | he
    · exact Ring.PassesThrough.of_reverse ⟨e, he, hheld⟩
    · rcases cap_holds ⟨e, he, hheld⟩ with hx | hx | hy <;> linarith

/-- Where no corner is on the meridian, the chain passes it at one latitude, and the rings lie on
either side. -/
theorem locate_of_crossing (h : Spans corners west sorted east) {lon : ℝ} (hlow : -180 ≤ lon)
    (hhigh : lon ≤ 180) (hmem : (a, b) ∈ Ring.segments (west :: sorted ++ [east]))
    (ha : a.x < lon) (hb : lon < b.x) {y : ℝ} (hsouth : -90 ≤ y) (hnorth : y ≤ 90) :
    (y < heightAt a b lon →
      Ring.locate (northern west sorted east) ⟨lon, y⟩ = .outside ∧
        Ring.locate (southern west sorted east) ⟨lon, y⟩ = .inside) ∧
      (heightAt a b lon < y →
        Ring.locate (northern west sorted east) ⟨lon, y⟩ = .inside ∧
          Ring.locate (southern west sorted east) ⟨lon, y⟩ = .outside) := by
  have hp : (world : Box ℝ).Contains ⟨lon, y⟩ := world_contains_iff.2 ⟨⟨hlow, hhigh⟩, hsouth, hnorth⟩
  have hwest : west.x < lon := (h.west_le_of_mem (Ring.mem_of_mem_segments hmem).1).trans_lt ha
  have heast : lon < east.x := hb.trans_le (h.le_east_of_mem (Ring.mem_of_mem_segments hmem).2)
  have hfaces := h.faces_of_crossing hp hmem ha.le hb
  have hoff : y ≠ heightAt a b lon →
      Ring.locate (northern west sorted east) ⟨lon, y⟩ ≠ .boundary ∧
        Ring.locate (southern west sorted east) ⟨lon, y⟩ ≠ .boundary := by
    intro hne
    have hpasses := (Ring.passesThrough_iff (y := y) h.eastward hmem ha hb).not.2 hne
    exact ⟨fun hon => hpasses (h.passesThrough_of_boundary hp hwest heast (Or.inl hon)),
      fun hon => hpasses (h.passesThrough_of_boundary hp hwest heast (Or.inr hon))⟩
  constructor <;> intro hy
  · obtain ⟨hn, hs⟩ := hoff hy.ne
    exact ⟨Location.eq_outside_of_ne hn fun hin => (hfaces.north_inside hin).not_gt hy,
      Location.eq_inside_of_ne hs fun hout => (hfaces.south_outside hout).not_gt hy⟩
  · obtain ⟨hn, hs⟩ := hoff hy.ne'
    exact ⟨Location.eq_inside_of_ne hn fun hout => (hfaces.north_outside hout).not_gt hy,
      Location.eq_outside_of_ne hs fun hin => (hfaces.south_inside hin).not_gt hy⟩

end Spans

/-! ## Rings -/

/-- The position at the opposite latitude. -/
def mirrored (p : Point ℝ) : Point ℝ := ⟨p.x, -p.y⟩

theorem chain_map_mirrored (corners : List (Point ℝ)) :
    chain (corners.map mirrored) = (chain corners).map mirrored := by
  have hsort := List.map_mergeSort (f := mirrored) (l := corners)
    (r := fun p q => !decide (q.x < p.x)) (s := fun p q => !decide (q.x < p.x)) fun _ _ _ _ => rfl
  simp only [chain, ← hsort, List.head?_map, List.getLast?_map]
  cases (corners.mergeSort fun p q => !decide (q.x < p.x)).head? with
  | none => rfl
  | some first =>
    cases (corners.mergeSort fun p q => !decide (q.x < p.x)).getLast? with
    | none => rfl
    | some last => simp [mirrored, westOf, eastOf]

theorem aroundPole_of_chain {line : List (Point ℝ)} {west east : Point ℝ} (h : chain corners = line)
    (hwest : line.head? = some west) (heast : line.getLast? = some east) :
    aroundPole corners .north = line ++ [⟨east.x, 91⟩, ⟨west.x, 91⟩] ∧
      aroundPole corners .south = line.reverse ++ [⟨west.x, -91⟩, ⟨east.x, -91⟩] := by
  simp only [aroundPole, h, hwest, heast, capLat_real, and_self]

/-- The southern ring is the mirror image of the northern one, taken the other way round. -/
theorem aroundPole_south_isRotated (corners : List (Point ℝ)) :
    (aroundPole corners .south).IsRotated
      ((aroundPole (corners.map mirrored) .north).map mirrored).reverse := by
  have hmirrored : mirrored ∘ mirrored = id := funext fun p => by simp [mirrored]
  cases hwest : (chain corners).head? with
  | none => simp [aroundPole, chain_map_mirrored, hwest]
  | some west =>
    obtain ⟨east, heast⟩ : ∃ east, (chain corners).getLast? = some east := by
      refine ⟨_, List.getLast?_eq_some_getLast fun hnil => ?_⟩
      rw [hnil] at hwest
      cases hwest
    have hsouth := (aroundPole_of_chain rfl hwest heast).2
    have hnorth := (aroundPole_of_chain (chain_map_mirrored corners)
      (by rw [List.head?_map, hwest, Option.map_some])
      (by rw [List.getLast?_map, heast, Option.map_some])).1
    rw [hsouth, hnorth, List.map_append, List.map_map, hmirrored, List.map_id, List.reverse_append]
    exact List.isRotated_append

/-- On a meridian, the chain of the corners has one latitude, and their rings reach from there to the
poles. -/
structure DividesAt (corners : List (Point ℝ)) (lon lat : ℝ) : Prop where
  passes_iff : ∀ y, Ring.PassesThrough (chain corners) ⟨lon, y⟩ ↔ y = lat
  south_of : ∀ y, -90 ≤ y → y < lat →
    Ring.locate (Ring.closed (aroundPole corners .north)) ⟨lon, y⟩ = .outside ∧
      Ring.locate (Ring.closed (aroundPole corners .south)) ⟨lon, y⟩ = .inside
  north_of : ∀ y, lat < y → y ≤ 90 →
    Ring.locate (Ring.closed (aroundPole corners .north)) ⟨lon, y⟩ = .inside ∧
      Ring.locate (Ring.closed (aroundPole corners .south)) ⟨lon, y⟩ = .outside

theorem heightAt_westOf_eastOf (p q : Point ℝ) (x : ℝ) :
    heightAt (westOf p) q (x - 360) = heightAt p (eastOf q) x := by
  simp only [heightAt, westOf, eastOf, turn_real]
  congr 1 <;> ring

theorem Spans.dividesAt {west east a b : Point ℝ} {sorted : List (Point ℝ)} {lon : ℝ}
    (h : Spans corners west sorted east) (hchain : chain corners = west :: sorted ++ [east])
    (hlow : -180 ≤ lon) (hhigh : lon ≤ 180)
    (hmem : (a, b) ∈ Ring.segments (west :: sorted ++ [east])) (ha : a.x < lon) (hb : lon < b.x) :
    DividesAt corners lon (heightAt a b lon) := by
  obtain ⟨hnorth, hsouth⟩ := aroundPole_of_chain hchain rfl (Spans.last_eq west sorted east)
  obtain ⟨hmost, hleast⟩ := heightAt_bounds ha.le hb
    (h.lats a (Ring.mem_of_mem_segments hmem).1) (h.lats b (Ring.mem_of_mem_segments hmem).2)
  constructor
  · intro y
    rw [hchain]
    exact Ring.passesThrough_iff h.eastward hmem ha hb
  · intro y hy hlt
    rw [hnorth, hsouth]
    exact (h.locate_of_crossing hlow hhigh hmem ha hb hy (by linarith)).1 hlt
  · intro y hlt hy
    rw [hnorth, hsouth]
    exact (h.locate_of_crossing hlow hhigh hmem ha hb (by linarith) hy).2 hlt

/-- Where no corner is on the antimeridian, the chain leaves the world at the latitude at which it
enters it. -/
theorem Spans.dividesAt_antimeridian {west east : Point ℝ} {sorted : List (Point ℝ)}
    (h : Spans corners west sorted east) (hchain : chain corners = west :: sorted ++ [east])
    (hopen : ∀ p ∈ corners, -180 < p.x ∧ p.x < 180) :
    ∃ lat, DividesAt corners (-180) lat ∧ DividesAt corners 180 lat := by
  obtain ⟨first, hfirst, rfl⟩ := Option.map_eq_some_iff.1 h.east_eq
  obtain ⟨last, hlast, rfl⟩ := Option.map_eq_some_iff.1 h.west_eq
  obtain ⟨hlow, -⟩ := hopen first (h.perm.mem_iff.1 (List.mem_of_head? hfirst))
  obtain ⟨-, hhigh⟩ := hopen last (h.perm.mem_iff.1 (List.mem_of_getLast? hlast))
  have hwest : (westOf last).x < -180 := by
    rw [westOf, turn_real]
    linarith
  have heast : 180 < (eastOf first).x := by
    rw [eastOf, turn_real]
    linarith
  refine ⟨heightAt (westOf last) first (-180), ?_, ?_⟩
  · exact h.dividesAt hchain le_rfl (by norm_num) (Spans.mem_segments_first _ _ hfirst) hwest hlow
  · have hsame : heightAt (westOf last) first (-180) = heightAt last (eastOf first) 180 := by
      rw [← heightAt_westOf_eastOf]
      norm_num
    rw [hsame]
    exact h.dividesAt hchain (by norm_num) le_rfl (Spans.mem_segments_last _ _ hlast) hhigh heast

/-- The rings around the poles for some corners in the world. The chain through the corners leads from
one end of the world to the other and is closed by a cap beyond the pole; at every longitude the rings
reach their poles; and if no corner is on the antimeridian, there is no step there. The southern ring
is the mirror image of the northern one. -/
theorem aroundPole_surrounds_pole (hne : corners ≠ [])
    (hworld : ∀ p ∈ corners, (world : Box ℝ).Contains p) :
    (∃ west sorted east, Spans corners west sorted east ∧
      chain corners = west :: sorted ++ [east] ∧
      aroundPole corners .north = chain corners ++ [⟨east.x, 91⟩, ⟨west.x, 91⟩] ∧
      aroundPole corners .south = (chain corners).reverse ++ [⟨west.x, -91⟩, ⟨east.x, -91⟩]) ∧
      (∀ lon : ℝ, -180 ≤ lon → lon ≤ 180 →
        Ring.locate (Ring.closed (aroundPole corners .north)) ⟨lon, 90⟩ ≠ .outside ∧
        Ring.locate (Ring.closed (aroundPole corners .south)) ⟨lon, -90⟩ ≠ .outside) ∧
      ((∀ p ∈ corners, -180 < p.x ∧ p.x < 180) →
        ∃ lat, DividesAt corners (-180) lat ∧ DividesAt corners 180 lat) ∧
      (aroundPole corners .south).IsRotated
        ((aroundPole (corners.map mirrored) .north).map mirrored).reverse := by
  obtain ⟨west, sorted, east, hchain, hspans⟩ := exists_spans hne hworld
  obtain ⟨hnorth, hsouth⟩ := aroundPole_of_chain hchain rfl (Spans.last_eq west sorted east)
  refine ⟨⟨west, sorted, east, hspans, hchain, hchain ▸ hnorth, hchain ▸ hsouth⟩,
    fun lon hlow hhigh => ?_, hspans.dividesAt_antimeridian hchain,
    aroundPole_south_isRotated corners⟩
  rw [hnorth, hsouth]
  exact hspans.locate_pole hlow hhigh

/-- Four corners that share two longitudes. -/
theorem aroundPole_surrounds_pole_of_ties :
    let corners : List (Point ℝ) := [⟨45, 89⟩, ⟨-135, 88⟩, ⟨45, 87⟩, ⟨-135, 89⟩]
    corners ≠ [] ∧ (∀ p ∈ corners, (world : Box ℝ).Contains p) ∧
      (∀ lon : ℝ, -180 ≤ lon → lon ≤ 180 →
        Ring.locate (Ring.closed (aroundPole corners .north)) ⟨lon, 90⟩ ≠ .outside ∧
        Ring.locate (Ring.closed (aroundPole corners .south)) ⟨lon, -90⟩ ≠ .outside) ∧
      ∃ lat, DividesAt corners (-180) lat ∧ DividesAt corners 180 lat := by
  intro corners
  have hworld : ∀ p ∈ corners, (world : Box ℝ).Contains p := by
    norm_num [corners, world_contains_iff]
  obtain ⟨-, hpoles, hopen, -⟩ := aroundPole_surrounds_pole (List.cons_ne_nil _ _) hworld
  exact ⟨List.cons_ne_nil _ _, hworld, hpoles, hopen (by norm_num [corners])⟩

end Utm
end UtmTiles
