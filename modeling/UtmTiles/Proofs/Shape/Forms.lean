import UtmTiles.Proofs.Shape.Leaves

/-!
# The forms of a document

A document comes as a text, as a value, as the document itself, or from an object that gives it for
itself. All of these come down to the same (`forms_agree`).

The types of features, and of collections of features, can also be left out of a value
(`GeoJson.Untyped`). The leaves of what is left are those of the document, but for features without a
geometry: a `null` in their place is a value that is no object. So the polygons are the same, and
there are none for the one if there are none for the other.
-/

namespace UtmTiles

/-- An object without its type. -/
def Json.withoutType : Json → Json
  | .object members => .object (members.filter fun m => m.1 != "type")
  | v => v

namespace GeoJson

/-- The value of a document with some types left out: a feature without its type, or a collection
that has no geometry without its type and with some or all of its features without theirs. -/
inductive Untyped : Json → Json → Prop
  | feature {v : Json} {f : Feature} (h : Document.ofJson? v = some (.feature f)) :
    Untyped v v.withoutType
  | collection {members : List (String × Json)} {c : FeatureCollection} {items items' : List Json}
    (h : Document.ofJson? (.object members) = some (.featureCollection c))
    (hgeometry : members.lookup "geometry" = none)
    (hfeatures : members.lookup "features" = some (.array items))
    (hitems : List.Forall₂ (fun item item' => item' = item ∨ item' = item.withoutType) items items') :
    Untyped (.object members)
      (Json.withoutType (.object (members.map fun m =>
        if m.1 = "features" then (m.1, .array items') else m)))

/-! ## What is read from a value -/

theorem Geometry.exists_kind {v : Json} {g : Geometry} (h : Geometry.ofJson? v = some g) :
    ∃ kind, v.member? "type" = some (.string kind) ∧ kind ≠ "Feature" ∧
      kind ≠ "FeatureCollection" := by
  cases v with
  | object members =>
    rw [ofJson?] at h
    show ∃ kind, members.lookup "type" = _ ∧ _
    split at h
    · next htype => exact ⟨_, htype, by decide, by decide⟩
    · next kind _ htype =>
      refine ⟨kind, htype, ?_, ?_⟩
      · rintro rfl
        simp [located?] at h
      · rintro rfl
        simp [located?] at h
    · cases h
  | _ => simp [ofJson?] at h

/-- A geometry is a document of its own. -/
theorem Document.ofJson?_of_geometry {v : Json} {g : Geometry} (h : Geometry.ofJson? v = some g) :
    Document.ofJson? v = some (.geometry g) := by
  obtain ⟨kind, htype, hfeature, hcollection⟩ := Geometry.exists_kind h
  rw [ofJson?, htype]
  split
  · next heq => simp_all
  · next heq => simp_all
  · rw [h]
    rfl

theorem Document.isSome_type {v : Json} {d : Document} (h : Document.ofJson? v = some d) :
    (v.member? "type").isSome = true := by
  cases htype : v.member? "type" with
  | some t => rfl
  | none =>
    rw [ofJson?, htype] at h
    obtain ⟨g, hg, -⟩ := Option.map_eq_some_iff.1 h
    obtain ⟨kind, hkind, -⟩ := Geometry.exists_kind hg
    rw [htype] at hkind
    cases hkind

theorem Document.feature_of_ofJson? {v : Json} {f : Feature}
    (h : Document.ofJson? v = some (.feature f)) : Feature.ofJson? v = some f := by
  rw [ofJson?] at h
  split at h
  · simpa using h
  · simp at h
  · simp at h

theorem Document.collection_of_ofJson? {v : Json} {c : FeatureCollection}
    (h : Document.ofJson? v = some (.featureCollection c)) : FeatureCollection.ofJson? v = some c := by
  rw [ofJson?] at h
  split at h
  · simp at h
  · simpa using h
  · simp at h

/-- A feature is read from an object with a type and a geometry. -/
theorem Feature.exists_members {v : Json} {f : Feature} (h : Feature.ofJson? v = some f) :
    ∃ members value, v = .object members ∧ members.lookup "type" = some (.string "Feature") ∧
      members.lookup "geometry" = some value ∧
      Feature.geometry? value = some f.geometry := by
  cases v with
  | object members =>
    rw [ofJson?] at h
    split at h
    · next htype =>
      obtain ⟨value, hvalue, h⟩ := Option.bind_eq_some_iff.1 h
      obtain ⟨geometry, hgeometry, h⟩ := Option.bind_eq_some_iff.1 h
      obtain ⟨properties, -, h⟩ := Option.bind_eq_some_iff.1 h
      obtain ⟨id, -, h⟩ := Option.bind_eq_some_iff.1 h
      obtain ⟨extras, -, h⟩ := Option.bind_eq_some_iff.1 h
      cases h
      exact ⟨members, value, rfl, htype, hvalue, hgeometry⟩
    · cases h
  | _ => simp [ofJson?] at h

theorem Document.ofJson?_of_feature {v : Json} {f : Feature} (h : Feature.ofJson? v = some f) :
    Document.ofJson? v = some (.feature f) := by
  obtain ⟨members, value, rfl, htype, -⟩ := Feature.exists_members h
  rw [ofJson?, Json.member?, htype, h]
  rfl

theorem FeatureCollection.exists_items {members : List (String × Json)}
    {c : FeatureCollection} (h : FeatureCollection.ofJson? (.object members) = some c) :
    ∃ items, members.lookup "features" = some (.array items) ∧
      items.mapM Feature.ofJson? = some c.features := by
  rw [ofJson?] at h
  split at h
  · obtain ⟨value, hvalue, h⟩ := Option.bind_eq_some_iff.1 h
    obtain ⟨features, hfeatures, h⟩ := Option.bind_eq_some_iff.1 h
    obtain ⟨extras, -, h⟩ := Option.bind_eq_some_iff.1 h
    cases h
    cases value with
    | array items => exact ⟨items, hvalue, hfeatures⟩
    | _ => cases hfeatures
  · cases h

end GeoJson

/-! ## Members -/

section Members

variable {members : List (String × Json)}

theorem lookup_filter_self (name : String) :
    (members.filter fun m => m.1 != name).lookup name = none := by
  rw [List.lookup_eq_none_iff]
  intro m hm
  have hne : m.1 ≠ name := by simpa using List.of_mem_filter hm
  simpa using Ne.symm hne

theorem lookup_filter_of_ne {name other : String} (h : name ≠ other) :
    (members.filter fun m => m.1 != other).lookup name = members.lookup name := by
  induction members with
  | nil => rfl
  | cons m rest ih =>
    rw [List.filter_cons]
    split
    · rw [List.lookup_cons, List.lookup_cons, ih]
    · next heq =>
      have hother : m.1 = other := by simpa using heq
      rw [ih, List.lookup_cons, hother, beq_false_of_ne h]

/-- The value of a name is replaced where the name stands. -/
theorem lookup_map_replaced (name other : String) (v : Json) :
    (members.map fun m => if m.1 = other then (m.1, v) else m).lookup name =
      if name = other then (members.lookup name).map fun _ => v else members.lookup name := by
  induction members with
  | nil => simp
  | cons m rest ih =>
    rw [List.map_cons, List.lookup_cons, List.lookup_cons, ih]
    by_cases hname : name = m.1
    · by_cases hother : m.1 = other
      · simp [hname, hother]
      · simp [hname, hother]
    · have hm : (if m.1 = other then (m.1, v) else m).1 = m.1 := by split <;> rfl
      rw [hm, beq_false_of_ne hname]

end Members

/-! ## Leaves -/

/-- The multipolygon that a leaf is, if it is one. -/
def Leaf.polygons? (leaf : Leaf) : Option (MultiPolygon Float) := leaf.polygons.toOption

namespace Shape

open GeoJson

theorem leavesOfMapping_of_document {v : Json} {d : Document} (h : Document.ofJson? v = some d) :
    leavesOfMapping v = d.leaves := by
  rw [leavesOfMapping.eq_def, if_pos (Document.isSome_type h), h]
  rfl

theorem not_isSome_type_filter (members : List (String × Json)) :
    ¬ ((Json.object (members.filter fun m => m.1 != "type")).member? "type").isSome := by
  rw [Json.member?, lookup_filter_self]
  exact Bool.false_ne_true

theorem leavesOfMapping_null : leavesOfMapping .null = [.value .null] := by
  have htype : ¬ (Json.null.member? "type").isSome := Bool.false_ne_true
  rw [leavesOfMapping.eq_def, if_neg htype]

/-- A feature without its type is a geometry, or a value that is no object. -/
theorem leavesOfMapping_feature {v : Json} {f : Feature} (h : Feature.ofJson? v = some f) :
    (leavesOfMapping v.withoutType).map Leaf.polygons? = [f.leaf.polygons?] := by
  obtain ⟨members, value, rfl, -, hvalue, hgeometry⟩ := Feature.exists_members h
  rw [Json.withoutType, leavesOfMapping_object (not_isSome_type_filter members),
    lookup_filter_of_ne (by decide), hvalue]
  show (leavesOfMapping value).map Leaf.polygons? = _
  unfold Feature.geometry? at hgeometry
  split at hgeometry
  · have hnone : f.geometry = none := (Option.some.inj hgeometry).symm
    rw [Feature.leaf, hnone, leavesOfMapping_null]
    rfl
  · obtain ⟨g, hg, hsome⟩ := Option.map_eq_some_iff.1 hgeometry
    rw [Feature.leaf, ← hsome, leavesOfMapping_of_document (Document.ofJson?_of_geometry hg)]
    rfl

/-- Features give the same multipolygons with their types and without them. -/
theorem flatMap_leavesOfMapping {items items' : List Json} {features : List Feature}
    (hitems : List.Forall₂ (fun item item' => item' = item ∨ item' = item.withoutType) items items')
    (hfeatures : items.mapM Feature.ofJson? = some features) :
    (items'.flatMap leavesOfMapping).map Leaf.polygons? =
      features.map fun f => f.leaf.polygons? := by
  induction hitems generalizing features with
  | nil =>
    cases hfeatures
    rfl
  | @cons item item' items items' hitem _ ih =>
    rw [List.mapM_cons] at hfeatures
    obtain ⟨f, hf, hfeatures⟩ := Option.bind_eq_some_iff.1 hfeatures
    obtain ⟨rest, hrest, hfeatures⟩ := Option.bind_eq_some_iff.1 hfeatures
    cases hfeatures
    rw [List.flatMap_cons, List.map_append, ih hrest, List.map_cons]
    rcases hitem with rfl | rfl
    · rw [leavesOfMapping_of_document (Document.ofJson?_of_feature hf)]
      rfl
    · rw [leavesOfMapping_feature hf]
      rfl

/-- Leaving out types changes no multipolygon. -/
theorem leavesOfMapping_untyped {v w : Json} {d : Document} (hd : Document.ofJson? v = some d)
    (h : Untyped v w) :
    (leavesOfMapping w).map Leaf.polygons? = d.leaves.map Leaf.polygons? := by
  cases h with
  | feature h =>
    cases hd.symm.trans h
    exact leavesOfMapping_feature (Document.feature_of_ofJson? h)
  | @collection members c items items' h hgeometry hfeatures hitems =>
    cases hd.symm.trans h
    obtain ⟨items, hitems₀, hread⟩ :=
      FeatureCollection.exists_items (Document.collection_of_ofJson? h)
    cases hitems₀.symm.trans hfeatures
    rw [Json.withoutType, leavesOfMapping_object (not_isSome_type_filter _),
      lookup_filter_of_ne (by decide), lookup_filter_of_ne (by decide), lookup_map_replaced,
      if_neg (by decide), hgeometry, lookup_map_replaced, if_pos rfl, hfeatures]
    dsimp only [Option.map_some]
    rw [flatMap_leavesOfMapping hitems hread, Document.leaves, List.map_map]
    rfl

theorem normalize_of_polygons {shape shape' : Shape} (h : shape.polygons = shape'.polygons) :
    shape.normalize = shape'.normalize := by
  rw [normalize, normalize, h]

theorem polygons_eq_ok_iff {shape : Shape} {parts : List (MultiPolygon Float)} :
    shape.polygons = .ok parts ↔ shape.leaves.map Leaf.polygons? = parts.map some := by
  rw [polygons_eq_mapM, mapM_eq_ok_iff, ← map_toOption_eq_iff, List.map_map]
  rfl

/-- Shapes whose leaves give the same multipolygons come down to the same list, or neither of them
comes down to a list. -/
theorem normalize_of_leaves {shape shape' : Shape}
    (h : shape.leaves.map Leaf.polygons? = shape'.leaves.map Leaf.polygons?) :
    (∃ parts, shape.normalize = .ok parts ∧ shape'.normalize = .ok parts) ∨
      ∃ fault fault', shape.normalize = .error (.shape fault) ∧
        shape'.normalize = .error (.shape fault') := by
  have hok (parts : List (MultiPolygon Float)) :
      shape.normalize = .ok parts ↔ shape'.normalize = .ok parts := by
    rw [normalize_eq_ok_iff, normalize_eq_ok_iff, polygons_eq_ok_iff, polygons_eq_ok_iff, h]
  have hfault {shape : Shape} {e : Error Float} (he : shape.normalize = .error e) :
      ∃ fault, shape.normalize = .error (.shape fault) := by
    obtain ⟨fault, rfl, -⟩ := normalize_eq_error_iff.1 he
    exact ⟨fault, he⟩
  cases hshape : shape.normalize with
  | ok parts => exact Or.inl ⟨parts, rfl, (hok parts).1 hshape⟩
  | error e =>
    cases hshape' : shape'.normalize with
    | ok parts =>
      rw [(hok parts).2 hshape'] at hshape
      cases hshape
    | error e' =>
      obtain ⟨fault, hfault₁⟩ := hfault hshape
      obtain ⟨fault', hfault₂⟩ := hfault hshape'
      exact Or.inr ⟨fault, fault', hshape ▸ hfault₁, hshape' ▸ hfault₂⟩

/-- A document comes down to the same polygons, or fails with the same fault, as a text, as a value,
as the document itself and when an object gives it for itself. If types are left out of its value,
then the polygons are the same, or there are none for either. -/
theorem forms_agree {v : Json} {d : Document} (hd : Document.ofJson? v = some d) :
    (∀ content, Json.read? content = some v →
      (text content).normalize = (document d).normalize) ∧
    (mapping v).normalize = (document d).normalize ∧
    (interface d).normalize = (document d).normalize ∧
    ∀ w, Untyped v w →
      (∃ parts, (mapping w).normalize = .ok parts ∧ (document d).normalize = .ok parts) ∨
        ∃ fault fault', (mapping w).normalize = .error (.shape fault) ∧
          (document d).normalize = .error (.shape fault') := by
  refine ⟨?_, ?_, ?_, ?_⟩
  · intro content hread
    apply normalize_of_polygons
    rw [polygons, polygons, Document.read?, hread]
    show ofDocument? (Document.ofJson? v) = _
    rw [hd]
    rfl
  · apply normalize_of_polygons
    rw [polygons, polygons, ofMapping_eq_mapM, leavesOfMapping_of_document hd, d.polygons_eq_mapM]
  · apply normalize_of_polygons
    rw [polygons, polygons]
  · intro w hw
    apply normalize_of_leaves
    rw [leaves, leaves]
    exact leavesOfMapping_untyped hd hw

/-- A collection of a triangle, with its types and without them, comes down to polygons. -/
theorem forms_agree_of_triangle :
    let corner (lon lat : Int) : Json := .array [.int lon, .int lat]
    let triangle : Json := .object [("type", .string "Polygon"),
      ("coordinates", .array [.array [corner 3 45, corner 4 45, corner 4 46, corner 3 45]])]
    let feature : Json := .object [("type", .string "Feature"), ("geometry", triangle)]
    let v : Json := .object [("type", .string "FeatureCollection"), ("features", .array [feature])]
    let w : Json := .object [("features", .array [.object [("geometry", triangle)]])]
    ∃ d parts, Document.ofJson? v = some d ∧ (document d).normalize = .ok parts ∧
      (mapping v).normalize = .ok parts ∧ (interface d).normalize = .ok parts ∧
      Untyped v w ∧ (mapping w).normalize = .ok parts := by
  intro corner triangle feature v w
  let position (lon lat : Int) : Position := [Float.ofInt lon, Float.ofInt lat]
  let g : Geometry :=
    .polygon [[position 3 45, position 4 45, position 4 46, position 3 45]] ⟨none, []⟩
  let f : Feature := ⟨some g, none, none, ⟨none, []⟩⟩
  have hgeometry : Feature.geometry? triangle = some (some g) := by
    show (Geometry.ofJson? triangle).map some = _
    rw [Geometry.ofJson?]
    rfl
  have hfeature : Feature.ofJson? feature = some f := by
    show (Feature.geometry? triangle).bind _ = _
    rw [hgeometry]
    rfl
  let d : Document := .featureCollection ⟨[f], ⟨none, []⟩⟩
  have hd : Document.ofJson? v = some d := by
    show (([feature].mapM Feature.ofJson?).bind _).map _ = _
    rw [mapM_cons_eq_some hfeature rfl]
    rfl
  have huntyped : Untyped v w := .collection hd rfl rfl (.cons (.inr rfl) .nil)
  have hok : (document d).normalize.isOk = true := by decide +kernel
  obtain ⟨parts, hparts⟩ := exists_eq_ok_of_isOk hok
  obtain ⟨-, hmapping, hinterface, hw⟩ := forms_agree hd
  rcases hw w huntyped with ⟨parts', huntypedParts, hparts'⟩ | ⟨-, fault, -, hfault⟩
  · cases hparts.symm.trans hparts'
    exact ⟨d, parts, hd, hparts, hmapping.trans hparts, hinterface.trans hparts, huntyped,
      huntypedParts⟩
  · cases hparts.symm.trans hfault

end Shape
end UtmTiles
