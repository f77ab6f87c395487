import UtmTiles.Proofs.Binary64.Order
import UtmTiles.Proofs.Shape.Leaves
import UtmTiles.Utm.Zone

/-!
# What is asked of shapes on the globe

A multipolygon is checked by the box around its exterior rings. So the check says nothing about
interior rings, which may lie anywhere. The box leaves out ordinates that are no numbers, and if the
first one is none, it leaves out all others.

`normalize_eq_ok_iff_exteriors` says which vertices are on the globe when a shape is accepted, and
which need not be.
-/

namespace UtmTiles

open Binary64

/-! ## Boxes -/

/-- The bounds of some ordinates: both are among them, and none lies beyond. The bounds are numbers
if the first ordinate is one. -/
structure Box.IsRange (low high first : Float) (values : List Float) : Prop where
  low_mem : low ∈ values
  high_mem : high ∈ values
  not_beyond : ∀ v ∈ values, ¬ v < low ∧ ¬ high < v
  low_isNaN : low.isNaN = first.isNaN
  high_isNaN : high.isNaN = first.isNaN

namespace Box.IsRange

variable {low high first : Float} {values : List Float}

theorem singleton (v : Float) : IsRange v v v [v] where
  low_mem := List.mem_singleton_self v
  high_mem := List.mem_singleton_self v
  not_beyond := by
    intro w hw
    obtain rfl := List.mem_singleton.1 hw
    exact ⟨not_lt_same w, not_lt_same w⟩
  low_isNaN := rfl
  high_isNaN := rfl

/-- One more ordinate widens the range, unless it lies within it or is no number. -/
theorem widen (h : IsRange low high first values) (v : Float) :
    IsRange (around?.widen v low high).1 (around?.widen v low high).2 first (values ++ [v]) := by
  have hbounds := h.not_beyond low h.low_mem
  have hmem {w : Float} (hw : w ∈ values) : w ∈ values ++ [v] := List.mem_append_left _ hw
  have hlast : v ∈ values ++ [v] := List.mem_append_right _ (List.mem_singleton_self v)
  have hall {low high : Float} (hold : ∀ w ∈ values, ¬ w < low ∧ ¬ high < w)
      (hnew : ¬ v < low ∧ ¬ high < v) : ∀ w ∈ values ++ [v], ¬ w < low ∧ ¬ high < w := by
    intro w hw
    rcases List.mem_append.1 hw with hw | hw
    · exact hold w hw
    · obtain rfl := List.mem_singleton.1 hw
      exact hnew
  unfold around?.widen
  split_ifs with habove hbelow
  · obtain ⟨hhigh, hv⟩ := isNaN_of_lt habove
    refine ⟨hmem h.low_mem, hlast, hall (fun w hw => ⟨(h.not_beyond w hw).1, fun hvw => ?_⟩)
      ⟨fun hvlow => ?_, not_lt_same v⟩, h.low_isNaN, ?_⟩
    · exact (h.not_beyond w hw).2 (lt_of_lt_of_lt habove hvw)
    · exact hbounds.2 (lt_of_lt_of_lt habove hvlow)
    · rw [hv, ← hhigh, h.high_isNaN]
  · obtain ⟨hv, hlow⟩ := isNaN_of_lt hbelow
    refine ⟨hlast, hmem h.high_mem, hall (fun w hw => ⟨fun hwv => ?_, (h.not_beyond w hw).2⟩)
      ⟨not_lt_same v, habove⟩, ?_, h.high_isNaN⟩
    · exact (h.not_beyond w hw).1 (lt_of_lt_of_lt hwv hbelow)
    · rw [hv, ← hlow, h.low_isNaN]
  · exact ⟨hmem h.low_mem, hmem h.high_mem, hall h.not_beyond ⟨hbelow, habove⟩, h.low_isNaN,
      h.high_isNaN⟩

/-- The range does not go beyond a bound on either side exactly if no ordinate does that the range
takes into account. -/
theorem within_iff (h : IsRange low high first values) (bound : Float)
    (hbound : bound.isNaN = false) (hneg : (-bound).isNaN = false) :
    ¬ low < -bound ∧ ¬ bound < high ↔
      ∀ v ∈ values, first.isNaN = true ∨ v.isNaN = true ∨ (-bound ≤ v ∧ v ≤ bound) := by
  cases hfirst : first.isNaN with
  | true =>
    -- a NaN compares with nothing
    refine iff_of_true ⟨fun hlt => ?_, fun hlt => ?_⟩ fun _ _ => Or.inl rfl
    · have hlow := (isNaN_of_lt hlt).1
      rw [h.low_isNaN, hfirst] at hlow
      cases hlow
    · have hhigh := (isNaN_of_lt hlt).2
      rw [h.high_isNaN, hfirst] at hhigh
      cases hhigh
  | false =>
    have hlow : low.isNaN = false := h.low_isNaN.trans hfirst
    have hhigh : high.isNaN = false := h.high_isNaN.trans hfirst
    constructor
    · rintro ⟨hwest, heast⟩ v hv
      obtain ⟨hbelow, habove⟩ := h.not_beyond v hv
      cases hnumber : v.isNaN with
      | true => exact Or.inr (Or.inl rfl)
      | false =>
        rw [← not_lt_iff hnumber hneg, ← not_lt_iff hbound hnumber]
        exact Or.inr (Or.inr ⟨fun hlt => hwest (lt_of_not_lt_of_lt hlow hbelow hlt),
          fun hlt => heast (lt_of_lt_of_not_lt hhigh hlt habove)⟩)
    · intro hall
      have hin {w : Float} (hw : w ∈ values) (hnumber : w.isNaN = false) :
          -bound ≤ w ∧ w ≤ bound := by
        rcases hall w hw with hnan | hnan | hin
        · cases hnan
        · rw [hnumber] at hnan
          cases hnan
        · exact hin
      rw [not_lt_iff hlow hneg, not_lt_iff hbound hhigh]
      exact ⟨(hin h.low_mem hlow).1, (hin h.high_mem hhigh).2⟩

end Box.IsRange

namespace Box

/-- The box with the bounds that one more point asks for. -/
def widened (b : Box Float) (p : Point Float) : Box Float where
  minX := (around?.widen p.x b.minX b.maxX).1
  minY := (around?.widen p.y b.minY b.maxY).1
  maxX := (around?.widen p.x b.minX b.maxX).2
  maxY := (around?.widen p.y b.minY b.maxY).2

theorem around?_cons (first : Point Float) (rest : List (Point Float)) :
    around? (first :: rest) =
      some (rest.foldl widened ⟨first.x, first.y, first.x, first.y⟩) := rfl

/-- The box has the ranges of some points' ordinates, the first of which is given. -/
def HasRanges (b : Box Float) (first : Point Float) (points : List (Point Float)) : Prop :=
  IsRange b.minX b.maxX first.x (points.map Point.x) ∧
    IsRange b.minY b.maxY first.y (points.map Point.y)

theorem HasRanges.widened {b : Box Float} {first : Point Float} {points : List (Point Float)}
    (h : b.HasRanges first points) (p : Point Float) :
    (b.widened p).HasRanges first (points ++ [p]) := by
  unfold HasRanges
  rw [List.map_append, List.map_append]
  exact ⟨h.1.widen p.x, h.2.widen p.y⟩

theorem HasRanges.foldl {b : Box Float} {first : Point Float} {points : List (Point Float)}
    (h : b.HasRanges first points) (rest : List (Point Float)) :
    (rest.foldl Box.widened b).HasRanges first (points ++ rest) := by
  induction rest generalizing b points with
  | nil =>
    rw [List.append_nil]
    exact h
  | cons p rest ih =>
    rw [List.foldl_cons, ← List.singleton_append, ← List.append_assoc]
    exact ih (h.widened p)

/-- The box around some points has the ranges of their ordinates. -/
theorem hasRanges_of_around? {first : Point Float} {rest : List (Point Float)} {b : Box Float}
    (h : around? (first :: rest) = some b) : b.HasRanges first (first :: rest) := by
  rw [around?_cons] at h
  cases h
  have hfirst : HasRanges ⟨first.x, first.y, first.x, first.y⟩ first [first] :=
    ⟨.singleton first.x, .singleton first.y⟩
  exact hfirst.foldl rest

end Box

/-! ## Exterior rings -/

/-- Closing a ring keeps its points. -/
theorem Ring.mem_closed {points : List (Point Float)} {p : Point Float} (h : p ∈ points) :
    p ∈ Ring.closed points := by
  unfold Ring.closed
  split
  · split_ifs
    · exact h
    · exact List.mem_append_left _ h
  · exact h

namespace Shape

/-- The vertices of the exterior rings of several polygons. -/
def exteriorVertices (ps : MultiPolygon Float) : List (Point Float) := ps.flatMap Polygon.exterior

/-- The first of some vertices has an ordinate that is no number. -/
def StartsWithNaN (ordinate : Point Float → Float) (vertices : List (Point Float)) : Prop :=
  ∃ first ∈ vertices.head?, (ordinate first).isNaN = true

/-- Polygons are accepted exactly if the vertices of their exterior rings lie on the globe, as far as
their ordinates are numbers and the first vertex's ordinate is one. -/
theorem checkOnGlobe_eq_ok_iff {ps : MultiPolygon Float} :
    checkOnGlobe ps = .ok () ↔ ∀ p ∈ exteriorVertices ps,
      (StartsWithNaN Point.x (exteriorVertices ps) ∨ p.x.isNaN = true ∨ Zone.HasLon p.x) ∧
        (StartsWithNaN Point.y (exteriorVertices ps) ∨ p.y.isNaN = true ∨ Zone.HasLat p.y) := by
  have hbox : MultiPolygon.box? ps = Box.around? (exteriorVertices ps) := rfl
  rw [checkOnGlobe, hbox]
  cases hvertices : exteriorVertices ps with
  | nil => exact iff_of_true rfl nofun
  | cons first rest =>
    obtain ⟨b, hb⟩ : ∃ b, Box.around? (first :: rest) = some b := ⟨_, rfl⟩
    obtain ⟨hx, hy⟩ := Box.hasRanges_of_around? hb
    have hlon := hx.within_iff 180.0 rfl rfl
    have hlat := hy.within_iff 90.0 rfl rfl
    simp only [List.forall_mem_map] at hlon hlat
    rw [hb]
    simp only [StartsWithNaN, List.head?_cons, Option.mem_some_iff, exists_eq_left']
    refine Iff.trans ?_ ((and_congr hlon hlat).trans forall₂_and.symm)
    split_ifs with hout
    · refine iff_of_false nofun ?_
      rintro ⟨⟨hwest, heast⟩, hsouth, hnorth⟩
      rcases hout with h | h | h | h
      exacts [hwest h, heast h, hsouth h, hnorth h]
    · simp only [not_or] at hout
      obtain ⟨hwest, heast, hsouth, hnorth⟩ := hout
      exact iff_of_true rfl ⟨⟨hwest, heast⟩, hsouth, hnorth⟩

/-- A shape is accepted exactly if it comes down to polygons whose exterior rings have their vertices
on the globe, but for ordinates that are no numbers and those of a multipolygon that starts with
such. Nothing is asked of interior rings. -/
theorem normalize_eq_ok_iff_exteriors {shape : Shape} {parts : List (MultiPolygon Float)} :
    shape.normalize = .ok parts ↔ shape.polygons = .ok parts ∧
      ∀ ps ∈ parts, ∀ p ∈ exteriorVertices ps,
        (StartsWithNaN Point.x (exteriorVertices ps) ∨ p.x.isNaN = true ∨ Zone.HasLon p.x) ∧
          (StartsWithNaN Point.y (exteriorVertices ps) ∨ p.y.isNaN = true ∨ Zone.HasLat p.y) := by
  rw [normalize_eq_ok_iff]
  exact and_congr_right fun _ => forall₂_congr fun _ _ => checkOnGlobe_eq_ok_iff

/-- A hole that lies beyond the antimeridian is accepted. -/
theorem normalize_hole_beyond_globe :
    let rings : List (List GeoJson.Position) :=
      [[[10.0, 45.0], [11.0, 45.0], [11.0, 46.0], [10.0, 45.0]],
        [[190.0, 45.0], [191.0, 45.0], [191.0, 46.0], [190.0, 45.0]]]
    (document (.geometry (.polygon rings .none))).normalize = .ok [[GeoJson.polygonOf rings]] ∧
      ∃ ring ∈ (GeoJson.polygonOf rings).interiors, ∃ q ∈ ring, ¬ Zone.HasLon q.x := by
  intro rings
  constructor
  · refine normalize_eq_ok_iff.2 ⟨rfl, ?_⟩
    rw [List.forall_mem_singleton]
    have hok : (checkOnGlobe [GeoJson.polygonOf rings]).isOk = true := by decide +kernel
    obtain ⟨_, hcheck⟩ := exists_eq_ok_of_isOk hok
    exact hcheck
  · exact ⟨_, List.mem_singleton_self _, ⟨190.0, 45.0⟩, Ring.mem_closed List.mem_cons_self,
      by decide⟩

end Shape

end UtmTiles
