import UtmTiles.Proofs.Partial
import UtmTiles.Shape.Basic

/-!
# The leaves of a shape

A shape is a tree: collections, mappings and feature collections hold further parts, and every way
down ends at a leaf. `Shape.leaves` are the leaves in the order in which they are written, those that
are of no use included. What a shape comes down to is said by its leaves alone (`polygons_eq_mapM`),
so that normalizing it is one pass over them, and a second pass over the multipolygons that they give.
-/

namespace UtmTiles

/-- What is met at the end of a way down through a shape. -/
inductive Leaf where
  | geometry (geometry : GeoJson.Geometry)
  | figure (figure : Figure)
  /-- A text, or a value with a type, that is no document. -/
  | noDocument
  /-- A feature without a geometry. -/
  | bareFeature
  /-- An object without a type, a geometry or an array of features. -/
  | untyped
  /-- A value that is no object. -/
  | value (value : Json)

namespace Leaf

/-- The multipolygon that a leaf is. -/
def polygons : Leaf → Except ShapeFault (MultiPolygon Float)
  | geometry g => g.polygons
  | figure f => f.polygons
  | noDocument => .error .notGeoJson
  | bareFeature => .error .noGeometry
  | untyped => .error .noKind
  | value v => .error (.notObject v)

/-- The leaves that are made of polygons. -/
inductive IsUsable : Leaf → Prop
  | polygon (rings : List (List GeoJson.Position)) (extras : GeoJson.Extras) :
    IsUsable (geometry (.polygon rings extras))
  | multiPolygon (parts : List (List (List GeoJson.Position))) (extras : GeoJson.Extras) :
    IsUsable (geometry (.multiPolygon parts extras))
  | figurePolygon (p : Polygon Float) : IsUsable (figure (.polygon p))
  | figureMultiPolygon (ps : MultiPolygon Float) : IsUsable (figure (.multiPolygon ps))
  | rectangle (p q : Point Float) : IsUsable (figure (.rectangle p q))
  | triangle (p q r : Point Float) : IsUsable (figure (.triangle p q r))

theorem isUsable_iff {leaf : Leaf} : leaf.IsUsable ↔ ∃ ps, leaf.polygons = .ok ps := by
  constructor
  · rintro (_ | _)
    all_goals exact ⟨_, rfl⟩
  · rintro ⟨ps, h⟩
    cases leaf with
    | geometry g =>
      cases g with
      | polygon rings extras => exact .polygon rings extras
      | multiPolygon parts extras => exact .multiPolygon parts extras
      | _ => cases h
    | figure f =>
      cases f with
      | polygon p => exact .figurePolygon p
      | multiPolygon ps => exact .figureMultiPolygon ps
      | rectangle p q => exact .rectangle p q
      | triangle p q r => exact .triangle p q r
      | _ => cases h
    | _ => cases h

theorem mapM_singleton (leaf : Leaf) : [leaf].mapM polygons = leaf.polygons.map ([·]) := by
  rw [List.mapM_cons, List.mapM_nil]
  cases leaf.polygons <;> rfl

end Leaf

/-! ## Documents -/

namespace GeoJson

def Feature.leaf (f : Feature) : Leaf :=
  match f.geometry with
  | some g => .geometry g
  | none => .bareFeature

def Document.leaves : Document → List Leaf
  | .geometry g => [.geometry g]
  | .feature f => [f.leaf]
  | .featureCollection c => c.features.map Feature.leaf

theorem Feature.polygons_leaf (f : Feature) : f.leaf.polygons = f.polygons := by
  unfold leaf polygons
  cases f.geometry <;> rfl

theorem Document.polygons_eq_mapM (d : Document) : d.polygons = d.leaves.mapM Leaf.polygons := by
  cases d with
  | geometry g => exact (Leaf.mapM_singleton (.geometry g)).symm
  | feature f =>
    rw [leaves, Leaf.mapM_singleton, Feature.polygons_leaf]
    rfl
  | featureCollection c =>
    rw [leaves, List.mapM_map, polygons]
    exact congrArg c.features.mapM (funext fun f => f.polygons_leaf.symm)

end GeoJson

namespace Shape

open GeoJson

def leavesOfDocument : Option Document → List Leaf
  | some d => d.leaves
  | none => [.noDocument]

theorem ofDocument?_eq_mapM (d : Option Document) :
    ofDocument? d = (leavesOfDocument d).mapM Leaf.polygons := by
  cases d with
  | none => rfl
  | some d => exact d.polygons_eq_mapM

/-! ## Mappings -/

/-- The leaves of a value that is like a document. -/
def leavesOfMapping (v : Json) : List Leaf :=
  if (v.member? "type").isSome then leavesOfDocument (Document.ofJson? v)
  else match v with
    | .object members =>
      match _h : members.lookup "geometry" with
      | some geometry => leavesOfMapping geometry
      | none =>
        match _h : members.lookup "features" with
        | some (.array features) =>
          features.attach.flatMap fun ⟨feature, _⟩ => leavesOfMapping feature
        | _ => [.untyped]
    | other => [.value other]
termination_by sizeOf v
decreasing_by
  · have := Json.sizeOf_lookup _h
    simp
    omega
  · have h₁ := Json.sizeOf_lookup _h
    have h₂ := List.sizeOf_lt_of_mem ‹feature ∈ features›
    simp at h₁ ⊢
    omega

/-- An object without a type is looked up for a geometry first, then for features. -/
theorem ofMapping_object {members : List (String × Json)}
    (htype : ¬ ((Json.object members).member? "type").isSome) :
    ofMapping (.object members) = match members.lookup "geometry" with
      | some geometry => ofMapping geometry
      | none => match members.lookup "features" with
        | some (.array features) => (features.mapM ofMapping).map List.flatten
        | _ => .error .noKind := by
  rw [ofMapping.eq_def, if_neg htype]
  dsimp only
  split
  · next geometry hgeometry => rw [hgeometry]
  · next hgeometry =>
    rw [hgeometry]
    dsimp only
    split
    · next features hfeatures =>
      rw [hfeatures]
      dsimp only
      rw [List.mapM_subtype (fun _ _ => rfl), List.unattach_attach]
      cases features.mapM ofMapping <;> rfl
    · next hfeatures =>
      split
      · next features h => exact absurd h (hfeatures features)
      · rfl

theorem leavesOfMapping_object {members : List (String × Json)}
    (htype : ¬ ((Json.object members).member? "type").isSome) :
    leavesOfMapping (.object members) = match members.lookup "geometry" with
      | some geometry => leavesOfMapping geometry
      | none => match members.lookup "features" with
        | some (.array features) => features.flatMap leavesOfMapping
        | _ => [.untyped] := by
  rw [leavesOfMapping.eq_def, if_neg htype]
  dsimp only
  split
  · next geometry hgeometry => rw [hgeometry]
  · next hgeometry =>
    rw [hgeometry]
    dsimp only
    split
    · next features hfeatures =>
      rw [hfeatures]
      dsimp only
      rw [List.flatMap_subtype (fun _ _ => rfl), List.unattach_attach]
    · next hfeatures =>
      split
      · next features h => exact absurd h (hfeatures features)
      · rfl

theorem ofMapping_eq_mapM (v : Json) : ofMapping v = (leavesOfMapping v).mapM Leaf.polygons := by
  by_cases htype : (v.member? "type").isSome
  · rw [ofMapping.eq_def, leavesOfMapping.eq_def, if_pos htype, if_pos htype, ofDocument?_eq_mapM]
  · cases v with
    | object members =>
      rw [ofMapping_object htype, leavesOfMapping_object htype]
      cases hgeometry : members.lookup "geometry" with
      | some geometry =>
        have hsize := Json.sizeOf_lookup hgeometry
        exact ofMapping_eq_mapM geometry
      | none =>
        dsimp only
        split
        · next features hfeatures =>
          have hsize := Json.sizeOf_lookup hfeatures
          rw [mapM_flatMap]
          refine congrArg _ (mapM_congr_of_mem fun feature hfeature => ?_)
          have hitem := List.sizeOf_lt_of_mem hfeature
          exact ofMapping_eq_mapM feature
        · rfl
    | _ =>
      rw [ofMapping.eq_def, leavesOfMapping.eq_def, if_neg htype, if_neg htype]
      rfl
termination_by sizeOf v
decreasing_by
  all_goals
    simp at hsize ⊢
    omega

/-! ## Shapes -/

mutual

/-- The leaves of a shape, in the order in which they are written. -/
def leaves : Shape → List Leaf
  | text s => leavesOfDocument (Document.read? s)
  | document d => d.leaves
  | mapping v => leavesOfMapping v
  | figure f => [.figure f]
  | interface d => d.leaves
  | collection shapes => leavesOfAll shapes

/-- The leaves of several shapes. -/
def leavesOfAll : List Shape → List Leaf
  | [] => []
  | shape :: rest => shape.leaves ++ leavesOfAll rest

end

mutual

/-- A shape comes down to what its leaves are. -/
theorem polygons_eq_mapM : ∀ shape : Shape, shape.polygons = shape.leaves.mapM Leaf.polygons
  | text s => by rw [polygons, leaves, ofDocument?_eq_mapM]
  | document d => by rw [polygons, leaves, d.polygons_eq_mapM]
  | mapping v => by rw [polygons, leaves, ofMapping_eq_mapM]
  | figure f => by
    rw [polygons, leaves, Leaf.mapM_singleton]
    rfl
  | interface d => by rw [polygons, leaves, d.polygons_eq_mapM]
  | collection shapes => by rw [polygons, leaves, polygonsOfAll_eq_mapM shapes]

theorem polygonsOfAll_eq_mapM :
    ∀ shapes, polygonsOfAll shapes = (leavesOfAll shapes).mapM Leaf.polygons
  | [] => rfl
  | shape :: rest => by
    rw [polygonsOfAll, leavesOfAll, List.mapM_append, polygons_eq_mapM shape,
      polygonsOfAll_eq_mapM rest]

end

/-! ## Normalizing -/

theorem normalize_eq_ok_iff {shape : Shape} {parts : List (MultiPolygon Float)} :
    shape.normalize = .ok parts ↔
      shape.polygons = .ok parts ∧ ∀ ps ∈ parts, checkOnGlobe ps = .ok () := by
  unfold normalize
  simp only [bind_eq_ok_iff, mapError_eq_ok_iff]
  constructor
  · rintro ⟨found, hfound, _, hcheck, h⟩
    cases h
    exact ⟨hfound, forM_eq_ok_iff.1 hcheck⟩
  · rintro ⟨hfound, hcheck⟩
    exact ⟨parts, hfound, (), forM_eq_ok_iff.2 hcheck, rfl⟩

theorem normalize_collection_cons {shape : Shape} {rest : List Shape}
    {parts : List (MultiPolygon Float)} :
    (collection (shape :: rest)).normalize = .ok parts ↔
      ∃ first others, shape.normalize = .ok first ∧ (collection rest).normalize = .ok others ∧
        first ++ others = parts := by
  simp only [normalize_eq_ok_iff, polygons, polygonsOfAll, bind_eq_ok_iff]
  constructor
  · rintro ⟨⟨first, hfirst, others, hothers, h⟩, hcheck⟩
    cases h
    rw [List.forall_mem_append] at hcheck
    exact ⟨first, others, ⟨hfirst, hcheck.1⟩, ⟨hothers, hcheck.2⟩, rfl⟩
  · rintro ⟨first, others, ⟨hfirst, hcheck⟩, ⟨hothers, hcheck'⟩, rfl⟩
    exact ⟨⟨first, hfirst, others, hothers, rfl⟩, List.forall_mem_append.2 ⟨hcheck, hcheck'⟩⟩

/-- Shapes taken together come down to what they come down to one after the other. -/
theorem normalize_collection {shapes : List Shape} {found : List (List (MultiPolygon Float))}
    (h : shapes.map normalize = found.map .ok) :
    (collection shapes).normalize = .ok found.flatten := by
  induction shapes generalizing found with
  | nil =>
    rw [List.map_nil, eq_comm, List.map_eq_nil_iff] at h
    rw [h]
    rfl
  | cons shape rest ih =>
    cases found with
    | nil => exact absurd h (List.cons_ne_nil _ _)
    | cons first others =>
      obtain ⟨hfirst, hothers⟩ := List.cons.inj h
      exact normalize_collection_cons.2 ⟨first, others.flatten, hfirst, ih hothers, rfl⟩

theorem normalize_eq_error_iff {shape : Shape} {e : Error Float} :
    shape.normalize = .error e ↔ ∃ fault, e = .shape fault ∧
      (FailsFirst Leaf.polygons shape.leaves fault ∨
        ∃ parts, shape.polygons = .ok parts ∧ FailsFirst checkOnGlobe parts fault) := by
  have hend (parts : List (MultiPolygon Float)) :
      (pure parts : Except (Error Float) _) ≠ .error e := nofun
  unfold normalize
  simp only [bind_eq_error_iff, mapError_eq_error_iff, mapError_eq_ok_iff, hend, and_false,
    exists_false, or_false, forM_eq_error_iff, ← mapM_eq_error_iff, ← polygons_eq_mapM]
  constructor
  · rintro (⟨fault, h, rfl⟩ | ⟨parts, hparts, fault, h, rfl⟩)
    · exact ⟨fault, rfl, Or.inl h⟩
    · exact ⟨fault, rfl, Or.inr ⟨parts, hparts, h⟩⟩
  · rintro ⟨fault, rfl, h | ⟨parts, hparts, h⟩⟩
    · exact Or.inl ⟨fault, h, rfl⟩
    · exact Or.inr ⟨parts, hparts, fault, h, rfl⟩

theorem polygonsOfAll_map (parts : List (MultiPolygon Float)) :
    polygonsOfAll (parts.map fun ps => figure (.multiPolygon ps)) = .ok parts := by
  induction parts with
  | nil => rfl
  | cons ps rest ih =>
    rw [List.map_cons, polygonsOfAll, ih]
    rfl

/-- The polygons of a shape, taken as a shape, come down to themselves. -/
theorem normalize_ofPolygons {shape : Shape} {parts : List (MultiPolygon Float)}
    (h : shape.normalize = .ok parts) : (ofPolygons parts).normalize = .ok parts := by
  refine normalize_eq_ok_iff.2 ⟨?_, (normalize_eq_ok_iff.1 h).2⟩
  rw [ofPolygons, polygons, polygonsOfAll_map]

/-- There is a multipolygon for each of some leaves exactly if all of them are usable. -/
theorem exists_mapM_eq_ok_iff {found : List Leaf} :
    (∃ parts, found.mapM Leaf.polygons = .ok parts) ↔ ∀ leaf ∈ found, leaf.IsUsable := by
  simp only [exists_mapM_ok_iff, Leaf.isUsable_iff]

/-- The multipolygons of some leaves are what the leaves are, and nothing else. -/
theorem mem_iff_of_mapM_eq_ok {found : List Leaf} {parts : List (MultiPolygon Float)}
    (h : found.mapM Leaf.polygons = .ok parts) {ps : MultiPolygon Float} :
    ps ∈ parts ↔ ∃ leaf ∈ found, leaf.polygons = .ok ps := by
  have hinjective : Function.Injective (Except.ok : MultiPolygon Float → Except ShapeFault _) :=
    fun _ _ => Except.ok.inj
  rw [← List.mem_map_of_injective hinjective, ← mapM_eq_ok_iff.1 h, List.mem_map]

/-- A shape comes down to a list exactly if all of its leaves are usable and give multipolygons on
the globe. The list has their multipolygons, one for each and in order, and comes down to itself.
Otherwise the fault is that of the first leaf that is not usable, whatever lies off the globe before
it; and if all of them are usable, that of the first multipolygon off the globe. -/
theorem normalize_folds_leaves (shape : Shape) :
    ((∃ parts, shape.normalize = .ok parts) ↔
      (∀ leaf ∈ shape.leaves, leaf.IsUsable) ∧
        ∀ leaf ∈ shape.leaves, ∀ ps, leaf.polygons = .ok ps → checkOnGlobe ps = .ok ()) ∧
    (∀ parts, shape.normalize = .ok parts →
      shape.leaves.map Leaf.polygons = parts.map .ok ∧
        (ofPolygons parts).normalize = .ok parts) ∧
    ∀ e, shape.normalize = .error e ↔ ∃ fault, e = .shape fault ∧
      (FailsFirst Leaf.polygons shape.leaves fault ∨
        ∃ parts, shape.leaves.map Leaf.polygons = parts.map .ok ∧
          FailsFirst checkOnGlobe parts fault) := by
  refine ⟨?_, fun parts h => ⟨?_, normalize_ofPolygons h⟩, fun e => ?_⟩
  · simp only [normalize_eq_ok_iff, polygons_eq_mapM, ← exists_mapM_eq_ok_iff]
    constructor
    · rintro ⟨parts, hparts, hcheck⟩
      exact ⟨⟨parts, hparts⟩, fun leaf hleaf ps hps =>
        hcheck ps ((mem_iff_of_mapM_eq_ok hparts).2 ⟨leaf, hleaf, hps⟩)⟩
    · rintro ⟨⟨parts, hparts⟩, hcheck⟩
      refine ⟨parts, hparts, fun ps hps => ?_⟩
      obtain ⟨leaf, hleaf, hpolygons⟩ := (mem_iff_of_mapM_eq_ok hparts).1 hps
      exact hcheck leaf hleaf ps hpolygons
  · rw [← mapM_eq_ok_iff, ← polygons_eq_mapM]
    exact (normalize_eq_ok_iff.1 h).1
  · simp only [normalize_eq_error_iff, polygons_eq_mapM, mapM_eq_ok_iff]

/-- The point spoils the shape before it is seen that the rectangle lies off the globe. -/
example : (collection [figure (.rectangle ⟨175.0, 0.0⟩ ⟨185.0, 1.0⟩),
    figure (.point ⟨1.0, 1.0⟩)]).normalize = .error (.shape (.notPolygonal "Point")) := rfl

end Shape
end UtmTiles
