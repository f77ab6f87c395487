import Mathlib.Analysis.Real.Pi.Bounds
import UtmTiles.Proofs.Utm.Longitude
import UtmTiles.Proofs.Utm.Origin
import UtmTiles.Proofs.Utm.World

/-!
# Boxes across the antimeridian

The corners of a box have longitudes that are less than half a turn apart (`Utm.unwrappedCorners`).
Wrapping moves each of them by its own number of turns into [-180, 180), and so it may tear them
apart: some end up in the west, the others in the east. The spread of the wrapped longitudes tells
when this has happened (`Utm.crossesAntimeridian_map_wrapped`), and their signs tell which of them
have to be moved back (`Utm.exists_rings_of_turns_lt`). All of this is about exact arithmetic.
-/

namespace UtmTiles
namespace Utm

open Real

/-! ## The spread of longitudes -/

/-- The smallest and the largest longitude of some positions. -/
structure IsLonRange (points : List (Point ℝ)) (range : ℝ × ℝ) : Prop where
  low_mem : ∃ p ∈ points, p.x = range.1
  high_mem : ∃ p ∈ points, p.x = range.2
  bounds : ∀ p ∈ points, range.1 ≤ p.x ∧ p.x ≤ range.2

namespace IsLonRange

variable {points : List (Point ℝ)} {range : ℝ × ℝ}

theorem singleton (p : Point ℝ) : IsLonRange [p] (p.x, p.x) where
  low_mem := ⟨p, List.mem_singleton_self p, rfl⟩
  high_mem := ⟨p, List.mem_singleton_self p, rfl⟩
  bounds q hq := by
    obtain rfl := List.mem_singleton.1 hq
    exact ⟨le_rfl, le_rfl⟩

/-- One more position. -/
theorem concat (h : IsLonRange points range) (p : Point ℝ) :
    IsLonRange (points ++ [p]) (Scalar.min range.1 p.x, Scalar.max range.2 p.x) := by
  have hlast : p ∈ points ++ [p] := List.mem_append_right _ (List.mem_singleton_self p)
  rw [Scalar.min_real, Scalar.max_real]
  refine ⟨?_, ?_, fun q hq => ?_⟩
  · obtain ⟨q, hq, hlow⟩ := h.low_mem
    rcases min_choice range.1 p.x with hmin | hmin
    · exact ⟨q, List.mem_append_left _ hq, hlow.trans hmin.symm⟩
    · exact ⟨p, hlast, hmin.symm⟩
  · obtain ⟨q, hq, hhigh⟩ := h.high_mem
    rcases max_choice range.2 p.x with hmax | hmax
    · exact ⟨q, List.mem_append_left _ hq, hhigh.trans hmax.symm⟩
    · exact ⟨p, hlast, hmax.symm⟩
  · rcases List.mem_append.1 hq with hq | hq
    · obtain ⟨hlow, hhigh⟩ := h.bounds q hq
      exact ⟨(min_le_left _ _).trans hlow, hhigh.trans (le_max_left _ _)⟩
    · obtain rfl := List.mem_singleton.1 hq
      exact ⟨min_le_right _ _, le_max_right _ _⟩

theorem foldl (h : IsLonRange points range) (rest : List (Point ℝ)) :
    IsLonRange (points ++ rest) (rest.foldl
      (fun (low, high) q => (Scalar.min low q.x, Scalar.max high q.x)) range) := by
  induction rest generalizing points range with
  | nil => rwa [List.append_nil]
  | cons p rest ih =>
    rw [← List.singleton_append, ← List.append_assoc]
    exact ih (h.concat p)

end IsLonRange

/-- The corners lie on both sides of the antimeridian if two of their longitudes are more than half a
turn apart. -/
theorem crossesAntimeridian_iff {corners : List (Point ℝ)} :
    crossesAntimeridian corners = true ↔ ∃ p ∈ corners, ∃ q ∈ corners, 180 < q.x - p.x := by
  have hhalf : (180.0 : ℝ) = 180 := by norm_num
  cases corners with
  | nil => simp [crossesAntimeridian, lonRange?]
  | cons p rest =>
    obtain ⟨⟨west, hwest, hlow⟩, ⟨east, heast, hhigh⟩, hbounds⟩ :=
      (IsLonRange.singleton p).foldl rest
    simp only [crossesAntimeridian, lonRange?, hhalf, decide_eq_true_eq]
    constructor
    · intro hspread
      exact ⟨west, hwest, east, heast, by rwa [hlow, hhigh]⟩
    · rintro ⟨q, hq, r, hr, hspread⟩
      linarith [(hbounds q hq).1, (hbounds r hr).2]

/-! ## Wrapped positions -/

section Ring

variable {ring : List (Point ℝ)}

/-- No two longitudes of the ring are half a turn or more apart. -/
structure IsNarrow (ring : List (Point ℝ)) : Prop where
  sub_lt : ∀ p ∈ ring, ∀ q ∈ ring, q.x - p.x < 180

/-- Narrow rings are spread by wrapping exactly where two positions are moved by different numbers of
turns. -/
theorem lt_wrapped_sub_iff {p q : Point ℝ} (hpq : q.x - p.x < 180) (hqp : p.x - q.x < 180) :
    180 < (wrapped q).x - (wrapped p).x ↔ wrappingTurns p.x < wrappingTurns q.x := by
  rw [wrapped, wrapped, turnedBy_x, turnedBy_x]
  constructor
  · intro hspread
    by_contra hle
    have hturns : (wrappingTurns q.x : ℝ) ≤ wrappingTurns p.x := by exact_mod_cast not_lt.1 hle
    linarith
  · intro hlt
    have hturns : (wrappingTurns p.x : ℝ) + 1 ≤ wrappingTurns q.x := by exact_mod_cast hlt
    linarith

theorem crossesAntimeridian_map_wrapped (h : IsNarrow ring) :
    crossesAntimeridian (ring.map wrapped) = true ↔
      ∃ p ∈ ring, ∃ q ∈ ring, wrappingTurns p.x < wrappingTurns q.x := by
  rw [crossesAntimeridian_iff]
  constructor
  · rintro ⟨_, hwest, _, heast, hspread⟩
    obtain ⟨p, hp, rfl⟩ := List.mem_map.1 hwest
    obtain ⟨q, hq, rfl⟩ := List.mem_map.1 heast
    exact ⟨p, hp, q, hq, (lt_wrapped_sub_iff (h.sub_lt p hp q hq) (h.sub_lt q hq p hp)).1 hspread⟩
  · rintro ⟨p, hp, q, hq, hturns⟩
    exact ⟨_, List.mem_map_of_mem hp, _, List.mem_map_of_mem hq,
      (lt_wrapped_sub_iff (h.sub_lt p hp q hq) (h.sub_lt q hq p hp)).2 hturns⟩

theorem map_wrapped_eq_iff {turns : ℤ} :
    ring.map wrapped = ring.map (turnedBy turns) ↔ ∀ p ∈ ring, wrappingTurns p.x = turns := by
  rw [List.map_inj_left]
  refine forall₂_congr fun p _ => ?_
  constructor
  · intro heq
    have hx := congrArg Point.x heq
    rw [wrapped, turnedBy_x, turnedBy_x] at hx
    have hturns : (wrappingTurns p.x : ℝ) = turns := by linarith
    exact_mod_cast hturns
  · rintro rfl
    rfl

theorem exists_turns_lt_iff :
    (∃ p ∈ ring, ∃ q ∈ ring, wrappingTurns p.x < wrappingTurns q.x) ↔
      ¬ ∃ turns : ℤ, ring.map wrapped = ring.map (turnedBy turns) := by
  simp only [map_wrapped_eq_iff]
  constructor
  · rintro ⟨p, hp, q, hq, hturns⟩ ⟨turns, hall⟩
    rw [hall p hp, hall q hq] at hturns
    exact lt_irrefl _ hturns
  · intro hnone
    cases ring with
    | nil => exact absurd ⟨0, fun p hp => absurd hp List.not_mem_nil⟩ hnone
    | cons p rest =>
      obtain ⟨q, hq, hne⟩ : ∃ q ∈ p :: rest, wrappingTurns q.x ≠ wrappingTurns p.x := by
        by_contra hall
        push Not at hall
        exact hnone ⟨_, hall⟩
      have hp : p ∈ p :: rest := List.mem_cons_self
      rcases lt_or_gt_of_ne hne with hless | hmore
      · exact ⟨q, hq, p, hp, hless⟩
      · exact ⟨p, hp, q, hq, hmore⟩

/-- Of a ring that is torn apart, some positions are moved by a number of turns and end up in the
west, and the others by one turn more and end up in the east. -/
theorem wrapped_cases (h : IsNarrow ring) {p q v : Point ℝ} (hp : p ∈ ring) (hq : q ∈ ring)
    (hv : v ∈ ring) (hturns : wrappingTurns p.x < wrappingTurns q.x) :
    (wrappingTurns v.x = wrappingTurns p.x ∧ (wrapped v).x < 0) ∨
      (wrappingTurns v.x = wrappingTurns p.x + 1 ∧ 0 ≤ (wrapped v).x) := by
  have hstep : (wrappingTurns p.x : ℝ) + 1 ≤ wrappingTurns q.x := by exact_mod_cast hturns
  have hpv := h.sub_lt v hv p hp
  have hvq := h.sub_lt q hq v hv
  have hwest := (wrapped_bounds p).1
  have heast := (wrapped_bounds q).2
  obtain ⟨hlow, hhigh⟩ := wrapped_bounds v
  simp only [wrapped, turnedBy_x] at *
  have hleast : wrappingTurns p.x - 1 < wrappingTurns v.x := by
    have : (wrappingTurns p.x : ℝ) - 1 < wrappingTurns v.x := by linarith
    exact_mod_cast this
  have hmost : wrappingTurns v.x < wrappingTurns p.x + 2 := by
    have : (wrappingTurns v.x : ℝ) < wrappingTurns p.x + 2 := by linarith
    exact_mod_cast this
  obtain hsame | hmore : wrappingTurns v.x = wrappingTurns p.x ∨
    wrappingTurns v.x = wrappingTurns p.x + 1 := by omega
  · refine Or.inl ⟨hsame, ?_⟩
    rw [hsame]
    linarith
  · refine Or.inr ⟨hmore, ?_⟩
    rw [hmore, Int.cast_add, Int.cast_one]
    linarith

/-- From a ring that is torn apart, the signs of the wrapped longitudes give the whole ring back, in
the west and a turn further east. -/
theorem exists_rings_of_turns_lt (h : IsNarrow ring)
    (hturns : ∃ p ∈ ring, ∃ q ∈ ring, wrappingTurns p.x < wrappingTurns q.x) :
    ∃ turns : ℤ, westernRing (ring.map wrapped) = ring.map (turnedBy turns) ∧
      easternRing (ring.map wrapped) = ring.map (turnedBy (turns + 1)) := by
  have hzero : (0.0 : ℝ) = 0 := by norm_num
  obtain ⟨p, hp, q, hq, hturns⟩ := hturns
  refine ⟨wrappingTurns p.x, ?_, ?_⟩
  · rw [westernRing, List.map_map, List.map_inj_left]
    intro v hv
    rcases wrapped_cases h hp hq hv hturns with ⟨hsame, hwest⟩ | ⟨hmore, heast⟩
    · rw [Function.comp_apply, hzero, if_neg (not_le.2 hwest), wrapped, hsame]
    · rw [Function.comp_apply, hzero, if_pos heast, westOf_eq, wrapped, turnedBy_turnedBy, hmore,
        add_neg_cancel_right]
  · rw [easternRing, List.map_map, List.map_inj_left]
    intro v hv
    rcases wrapped_cases h hp hq hv hturns with ⟨hsame, hwest⟩ | ⟨hmore, heast⟩
    · rw [Function.comp_apply, hzero, if_pos hwest, eastOf_eq, wrapped, turnedBy_turnedBy, hsame]
    · rw [Function.comp_apply, hzero, if_neg (not_lt.2 heast), wrapped, hmore]

end Ring

/-! ## Corners of boxes -/

/-- The positions of a box's corners, before their longitudes are wrapped. -/
def unwrappedCorners {α : Type} [Elementary α] (zone : ℕ) (box : Box α) : List (Point α) :=
  box.corners.map fun p =>
    let (xi, eta) := spherical p.x p.y
    ⟨unwrappedLon zone xi eta, latOf xi eta⟩

theorem isNarrow_unwrappedCorners (zone : ℕ) (box : Box ℝ) :
    IsNarrow (unwrappedCorners zone box) := by
  have hnear : ∀ p ∈ unwrappedCorners zone box, |p.x - Zone.centralMeridian zone| < 90 := by
    intro p hp
    obtain ⟨corner, -, rfl⟩ := List.mem_map.1 hp
    simp only [unwrappedLon_real, add_sub_cancel_left]
    exact abs_toDegrees_arctan_lt _
  refine ⟨fun p hp q hq => ?_⟩
  linarith [(abs_lt.1 (hnear p hp)).1, (abs_lt.1 (hnear q hq)).2]

theorem cornerPositions_eq (zone : ℕ) (box : Box ℝ) :
    cornerPositions zone box = (unwrappedCorners zone box).map wrapped := by
  rw [cornerPositions, unwrappedCorners, List.map_map, List.map_inj_left]
  intro p _
  have hlon := unproject_fst zone p.x p.y
  simp only [Function.comp_apply, wrapped, turnedBy, wrappingTurns_real, turn_real, Point.mk.injEq]
  refine ⟨?_, rfl⟩
  rw [hlon]
  push_cast
  ring

/-- The footprint of a box without a pole. It is split exactly if wrapping has not moved all corners
by the same number of turns. Otherwise it is the ring of the corners, moved as a whole; and when it is
split, its two parts are what the western and the eastern hemisphere hold of the whole ring, which is
moved one turn further for the eastern part. -/
theorem footprint_of_no_pole (zone : ℕ) {box : Box ℝ}
    (hnorth : ¬ box.Contains ⟨falseEasting, poleNorthing⟩)
    (hsouth : ¬ box.Contains ⟨falseEasting, -poleNorthing⟩) :
    let corners := cornerPositions zone box
    let ring := unwrappedCorners zone box
    (∀ p ∈ corners, -180 ≤ p.x ∧ p.x < 180) ∧
      (crossesAntimeridian corners = true ↔
        ¬ ∃ turns : ℤ, corners = ring.map (turnedBy turns)) ∧
      (∀ turns : ℤ, corners = ring.map (turnedBy turns) →
        footprint zone box = [Polygon.ofRings (ring.map (turnedBy turns)) []]) ∧
      ((¬ ∃ turns : ℤ, corners = ring.map (turnedBy turns)) →
        ∃ turns : ℤ, westernRing corners = ring.map (turnedBy turns) ∧
          easternRing corners = ring.map (turnedBy (turns + 1)) ∧
          footprint zone box = clipped (ring.map (turnedBy turns)) ⟨-180, -90, 0, 90⟩ ++
            clipped (ring.map (turnedBy (turns + 1))) ⟨0, -90, 180, 90⟩) := by
  intro corners ring
  have hnarrow := isNarrow_unwrappedCorners zone box
  have hcorners : corners = ring.map wrapped := cornerPositions_eq zone box
  have hcrosses : crossesAntimeridian corners = true ↔
      ¬ ∃ turns : ℤ, corners = ring.map (turnedBy turns) := by
    rw [hcorners, crossesAntimeridian_map_wrapped hnarrow, exists_turns_lt_iff]
  refine ⟨fun p hp => ?_, hcrosses, fun turns hturns => ?_, fun hturns => ?_⟩
  · rw [hcorners] at hp
    obtain ⟨q, -, rfl⟩ := List.mem_map.1 hp
    exact wrapped_bounds q
  · have hwhole : ¬ crossesAntimeridian corners = true := fun h => hcrosses.1 h ⟨turns, hturns⟩
    rw [footprint, if_neg hnorth, if_neg hsouth, if_neg hwhole, ← hturns]
  · have hsplit := hcrosses.2 hturns
    rw [hcorners] at hturns
    obtain ⟨turns, hwestern, heastern⟩ :=
      exists_rings_of_turns_lt hnarrow (exists_turns_lt_iff.2 hturns)
    rw [← hcorners] at hwestern heastern
    have hwindows : ({ (world : Box ℝ) with maxX := 0.0 } : Box ℝ) = ⟨-180, -90, 0, 90⟩ ∧
        ({ (world : Box ℝ) with minX := 0.0 } : Box ℝ) = ⟨0, -90, 180, 90⟩ := by
      norm_num [world_real]
    refine ⟨turns, hwestern, heastern, ?_⟩
    rw [footprint, if_neg hnorth, if_neg hsouth, if_pos hsplit, ← hwestern, ← heastern,
      hwindows.1, hwindows.2]

/-! ## A box across the antimeridian -/

/-- On the central meridian, there is no angle across. -/
theorem unwrappedLon_meridian (zone : ℕ) (northing : ℝ) :
    unwrappedLon zone (spherical falseEasting northing).1 (spherical falseEasting northing).2 =
      Zone.centralMeridian zone := by
  have hspherical := spherical_real 0 (northing / unit)
  rw [mul_zero, add_zero, mul_div_cancel₀ _ unit_pos.ne'] at hspherical
  simp [hspherical, unwrappedLon_real, Series.across_real, toDegrees_real]

/-- Directions to the west are an eighth of a turn away from the meridian where the components are
equal. -/
theorem unwrappedLon_le_of_sinh_le (zone : ℕ) {xi eta : ℝ} (hcos : 0 < cos xi)
    (hsinh : sinh eta ≤ -cos xi) : unwrappedLon zone xi eta ≤ Zone.centralMeridian zone - 45 := by
  have hquotient : sinh eta / cos xi ≤ -1 := by
    rw [div_le_iff₀ hcos]
    linarith
  have hscale : 0 < 180 / π := by positivity
  have hangle : Elementary.toDegrees (arctan (sinh eta / cos xi)) ≤ -45 :=
    calc Elementary.toDegrees (arctan (sinh eta / cos xi))
        ≤ arctan (-1) * (180 / π) := by
          rw [toDegrees_real]
          gcongr
      _ = -45 := by
        have hpi := pi_ne_zero
        rw [arctan_neg, arctan_one]
        field_simp
        norm_num
  rw [unwrappedLon_real]
  linarith

/-- Near the pole, the meridians are close together: a point that is further away from the central
meridian than from the pole lies more to the west than to the south of the pole. -/
theorem sinh_spherical_le_near_pole {x y : ℝ} (hx : 0 < x) (hsmall : x ≤ 1 / 60) (hy : y < π / 2)
    (hnear : 3 / 2 * (π / 2 - y) ≤ 49 / 50 * x) :
    0 < cos (spherical (falseEasting + unit * -x) (unit * y)).1 ∧
      sinh (spherical (falseEasting + unit * -x) (unit * y)).2 ≤
        -cos (spherical (falseEasting + unit * -x) (unit * y)).1 := by
  obtain ⟨along, halong⟩ : ∃ d, (Series.backward : Series ℝ).along y (-x) = d := ⟨_, rfl⟩
  obtain ⟨across, hacross⟩ : ∃ d, (Series.backward : Series ℝ).across y x = d := ⟨_, rfl⟩
  have hspherical : spherical (falseEasting + unit * -x) (unit * y) = (y - along, -(x - across)) := by
    rw [spherical_real, Series.across_neg, halong, hacross]
    ring_nf
  have halonghalf : |along| ≤ (π / 2 - y) / 2 := by
    have hhalf := Series.abs_along_le_half_pole _ Series.weight_backward (x := y) (y := -x)
      (by rw [abs_neg, abs_of_pos hx]; linarith)
    rwa [halong, abs_of_pos (sub_pos.2 hy)] at hhalf
  have hacrosspart : |across| ≤ 1 / 50 * x :=
    hacross ▸ Series.abs_across_le Series.weight_backward hx hsmall
  have hcos : 0 < cos (y - along) ∧ cos (y - along) ≤ 49 / 50 * x := by
    obtain ⟨hlow, hhigh⟩ := abs_le.1 halonghalf
    have hpos : 0 < π / 2 - (y - along) := by linarith
    rw [← sin_pi_div_two_sub]
    exact ⟨sin_pos_of_pos_of_lt_pi hpos (by linarith [pi_gt_three]),
      (sin_le hpos.le).trans (by linarith)⟩
  have hsinh : 49 / 50 * x ≤ sinh (x - across) := by
    obtain ⟨hlow, hhigh⟩ := abs_le.1 hacrosspart
    have hpos : 0 ≤ x - across := by linarith
    linarith [self_le_sinh_iff.2 hpos]
  rw [hspherical, sinh_neg]
  exact ⟨hcos.1, neg_le_neg (hcos.2.trans hsinh)⟩

/-- 60 km to the west of a central meridian, and about half as far from the pole. -/
theorem unwrappedLon_le_near_pole (zone : ℕ) :
    unwrappedLon zone (spherical (440000 : ℝ) 9970000).1 (spherical (440000 : ℝ) 9970000).2 ≤
      Zone.centralMeridian zone - 45 := by
  have hunit : 6364900 ≤ (unit : ℝ) ∧ (unit : ℝ) ≤ 6364910 := by
    norm_num [unit, centralScale, rectifyingRadius, thirdFlattening, flattening, majorAxis]
  obtain ⟨x, hx⟩ : ∃ x : ℝ, unit * x = 60000 := ⟨60000 / unit, mul_div_cancel₀ _ unit_pos.ne'⟩
  obtain ⟨y, hy⟩ : ∃ y : ℝ, unit * y = 9970000 := ⟨9970000 / unit, mul_div_cancel₀ _ unit_pos.ne'⟩
  have hxbounds : 0 < x ∧ x ≤ 1 / 60 := ⟨by nlinarith, by nlinarith⟩
  have hpi : 3.1415 < π ∧ π < 3.1416 := ⟨pi_gt_d4, pi_lt_d4⟩
  have hleft : y < π / 2 ∧ 3 / 2 * (π / 2 - y) ≤ 49 / 50 * x := ⟨by nlinarith, by nlinarith⟩
  have hpoint : falseEasting + unit * -x = 440000 := by
    rw [mul_neg, hx, falseEasting_real]
    norm_num
  obtain ⟨hcos, hsinh⟩ := sinh_spherical_le_near_pole hxbounds.1 hxbounds.2 hleft.1 hleft.2
  rw [hpoint, hy] at hcos hsinh
  exact unwrappedLon_le_of_sinh_le zone hcos hsinh

/-- In zone 1, a box that reaches from the central meridian across the antimeridian. -/
theorem footprint_of_no_pole_across_antimeridian :
    let box : Box ℝ := ⟨440000, 9960000, 500000, 9970000⟩
    let ring := unwrappedCorners 1 box
    ¬ box.Contains ⟨falseEasting, poleNorthing⟩ ∧ ¬ box.Contains ⟨falseEasting, -poleNorthing⟩ ∧
      ∃ turns : ℤ, footprint 1 box = clipped (ring.map (turnedBy turns)) ⟨-180, -90, 0, 90⟩ ++
        clipped (ring.map (turnedBy (turns + 1))) ⟨0, -90, 180, 90⟩ := by
  intro box ring
  have hnorth : ¬ box.Contains ⟨falseEasting, poleNorthing⟩ := by
    norm_num [box, Box.Contains, poleNorthing]
  have hsouth : ¬ box.Contains ⟨falseEasting, -poleNorthing⟩ := by
    norm_num [box, Box.Contains, poleNorthing]
  obtain ⟨-, -, -, hsplit⟩ := footprint_of_no_pole 1 hnorth hsouth
  have htorn : ¬ ∃ turns : ℤ, cornerPositions 1 box = ring.map (turnedBy turns) := by
    rw [cornerPositions_eq, ← exists_turns_lt_iff]
    have hmeridian : (Zone.centralMeridian 1 : ℝ) = -177 := by
      norm_num [Zone.centralMeridian_real]
    -- the lower right corner is on the central meridian, the upper left one across the antimeridian
    have hwest := unwrappedLon_le_near_pole 1
    have heast := unwrappedLon_meridian 1 9960000
    rw [hmeridian] at hwest heast
    rw [falseEasting_real] at heast
    refine ⟨_, List.mem_cons_self, _, List.mem_cons_of_mem _ (List.mem_cons_of_mem _
      List.mem_cons_self), lt_of_le_of_lt (not_lt.1 ?_) (wrappingTurns_pos_iff.2 ?_)⟩
    · rw [wrappingTurns_pos_iff]
      simp only [box, heast]
      norm_num
    · simp only [box]
      linarith
  obtain ⟨turns, -, -, hparts⟩ := hsplit htorn
  exact ⟨hnorth, hsouth, turns, hparts⟩

end Utm
end UtmTiles
