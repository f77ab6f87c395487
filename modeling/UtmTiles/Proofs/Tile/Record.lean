import UtmTiles.Proofs.Json.ReadBack
import UtmTiles.Proofs.Partial
import UtmTiles.Proofs.Tile.Reachable
import UtmTiles.Tile.Record

/-!
# Records read back

A record is written as an object and read from one. All members but the doubles are read back as they
are, whatever they are; each double is read as what its own text says (`Record.read?_line`). So it
depends on the doubles alone whether a tile's record is read back (`Tile.record_is_read_back_iff`).
-/

namespace UtmTiles

open Json (reread doubleBack? depth)

/-! ## Geometries -/

namespace GeoJson

variable {limit : ℕ}

theorem depth_listJson_le {β : Type} {item : β → Json} {bs : List β} {n : ℕ}
    (h : ∀ b ∈ bs, depth (item b) ≤ n) : depth (listJson item bs) ≤ n + 1 := by
  refine Nat.succ_le_succ (Json.itemsDepth_le_iff.2 fun v hv => ?_)
  obtain ⟨b, hb, rfl⟩ := List.mem_map.1 hv
  exact h b hb

/-- A list is read item by item. -/
theorem reread_listJson {β γ : Type} {item : β → Json} {item? : Json → Option γ} {bs : List β}
    {f : β → Option γ} (h : depth (listJson item bs) < limit)
    (hitem : ∀ b ∈ bs, (reread limit (item b)).bind item? = f b) :
    (reread limit (listJson item bs)).bind (list? item?) = bs.mapM f := by
  rw [← mapM_congr_of_mem hitem, ← mapM_bind_mapM, listJson, Json.reread_array h, List.mapM_map,
    Option.bind_map]
  rfl

theorem depth_positionJson_le (p : Position) : depth (positionJson p) ≤ 1 :=
  depth_listJson_le fun _ _ => le_rfl

theorem depth_ring_le (ring : List Position) : depth (listJson positionJson ring) ≤ 2 :=
  depth_listJson_le fun p _ => depth_positionJson_le p

theorem depth_rings_le (rings : List (List Position)) :
    depth (listJson (listJson positionJson) rings) ≤ 3 :=
  depth_listJson_le fun ring _ => depth_ring_le ring

theorem reread_positionJson (hlimit : 1 < limit) {p : Position} (hp : 2 ≤ p.length) :
    (reread limit (positionJson p)).bind position? = p.mapM (doubleBack? limit) := by
  have hnumbers : (reread limit (positionJson p)).bind (list? Json.float?) =
      p.mapM (doubleBack? limit) :=
    reread_listJson ((depth_positionJson_le p).trans_lt hlimit) fun _ _ => rfl
  have hposition (v : Json) : position? v =
      (list? Json.float? v).bind fun numbers => if 2 ≤ numbers.length then some numbers else none :=
    rfl
  simp only [hposition, ← Option.bind_assoc]
  rw [hnumbers]
  cases hread : p.mapM (doubleBack? limit) with
  | none => rfl
  | some numbers =>
    rw [Option.bind_some, length_of_mapM_eq_some hread, if_pos hp]

/-- The rings of a polygon are read position by position. -/
theorem reread_rings (hlimit : 3 < limit) {rings : List (List Position)}
    (hrings : ∀ ring ∈ rings, ∀ p ∈ ring, 2 ≤ p.length) :
    (reread limit (listJson (listJson positionJson) rings)).bind (list? (list? position?)) =
      rings.mapM fun ring => ring.mapM fun p => p.mapM (doubleBack? limit) := by
  refine reread_listJson ((depth_rings_le rings).trans_lt hlimit) fun ring hmem => ?_
  refine reread_listJson ((depth_ring_le ring).trans_lt (by omega)) fun p hp => ?_
  exact reread_positionJson (by omega) (hrings ring hmem p hp)

theorem depth_polygon_le (rings : List (List Position)) :
    depth (Geometry.polygon rings .none).toJson ≤ 4 := by
  refine Nat.succ_le_succ (Json.membersDepth_le_iff.2 fun m hm => ?_)
  rcases List.mem_cons.1 hm with rfl | hm
  · exact Nat.zero_le _
  · rcases List.mem_cons.1 hm with rfl | hm
    · exact depth_rings_le rings
    · exact absurd hm List.not_mem_nil

/-- An object with the type and the coordinates of a polygon. -/
theorem ofJson?_polygon (coordinates : Json) :
    Geometry.ofJson? (.object (Json.insertMembers []
      [("type", .string "Polygon"), ("coordinates", coordinates)])) =
      (list? (list? position?) coordinates).map (Geometry.polygon · .none) := by
  have hmembers : Json.insertMembers [] [("type", .string "Polygon"), ("coordinates", coordinates)] =
      [("coordinates", coordinates), ("type", .string "Polygon")] := by
    have hlt : "coordinates" < "type" := by decide
    exact if_pos hlt
  rw [hmembers, Geometry.ofJson?.eq_def]
  rfl

/-- A polygon is read ring by ring. -/
theorem reread_polygon (hlimit : 4 < limit) {rings : List (List Position)}
    (hrings : ∀ ring ∈ rings, ∀ p ∈ ring, 2 ≤ p.length) :
    (reread limit (Geometry.polygon rings .none).toJson).bind Geometry.ofJson? =
      (rings.mapM fun ring : List Position => ring.mapM fun p : Position =>
        p.mapM (doubleBack? limit)).map (Geometry.polygon · .none) := by
  have hread := reread_rings (show 3 < limit by omega) hrings
  have hobject := Json.reread_object ((depth_polygon_le rings).trans_lt hlimit)
  rw [← hread, Geometry.toJson, Geometry.toJson.located, hobject]
  show ((List.mapM (Json.rereadMember limit) [("type", .string "Polygon"),
    ("coordinates", listJson (listJson positionJson) rings)]).map _).bind _ = _
  rw [List.mapM_cons, List.mapM_cons, List.mapM_nil, Json.rereadMember, Json.rereadMember,
    Json.reread_string (show 0 < limit by omega)]
  cases reread limit (listJson (listJson positionJson) rings) with
  | none => rfl
  | some coordinates => exact ofJson?_polygon coordinates

end GeoJson

/-! ## Members by name -/

namespace Json

theorem lookup_cons_eq_ite (k name : String) (v : Json) (members : List (String × Json)) :
    ((name, v) :: members).lookup k = if k = name then some v else members.lookup k := by
  rw [List.lookup_cons]
  by_cases h : k = name
  · rw [if_pos h, beq_iff_eq.2 h]
  · rw [if_neg h, beq_eq_false_iff_ne.2 h]

theorem lookup_insertMember (name : String) (v : Json) (members : List (String × Json))
    (k : String) :
    (insertMember name v members).lookup k = if k = name then some v else members.lookup k := by
  induction members with
  | nil => exact lookup_cons_eq_ite k name v []
  | cons m rest ih =>
    obtain ⟨n, w⟩ := m
    unfold insertMember
    by_cases hlt : name < n
    · rw [if_pos hlt]
      exact lookup_cons_eq_ite ..
    rw [if_neg hlt]
    by_cases heq : name = n
    · subst heq
      rw [if_pos rfl, lookup_cons_eq_ite, lookup_cons_eq_ite]
      by_cases hk : k = name
      · rw [if_pos hk, if_pos hk]
      · rw [if_neg hk, if_neg hk, if_neg hk]
    · rw [if_neg heq, lookup_cons_eq_ite, lookup_cons_eq_ite, ih]
      by_cases hk : k = n
      · subst hk
        rw [if_pos rfl, if_pos rfl, if_neg (Ne.symm heq)]
      · rw [if_neg hk, if_neg hk]

end Json

namespace Record

open GeoJson (list?)

theorem values?_object (key resolution tilesize pad system bounds size zone ti tj geotransform
    parameters wellKnown geometry : Json) :
    values? (.object (Json.insertMembers []
      [("key", key), ("resolution", resolution), ("tilesize", tilesize), ("pad", pad),
       ("cs_code", system), ("outputBounds", bounds), ("size", size), ("zone", zone), ("ti", ti),
       ("tj", tj), ("geotrans", geotransform), ("proj4", parameters), ("wkt", wellKnown),
       ("geometry", geometry)])) =
      some [key, resolution, tilesize, pad, system, bounds, size, zone, ti, tj, geotransform,
        parameters, wellKnown, geometry] := by
  simp [values?, memberNames, Json.insertMembers, Json.lookup_insertMember]

/-- The record that a text stands for. -/
def read? (text : String) : Option Record := (Json.read? text).bind ofJson?

/-- The numbers that a record may have. -/
structure IsValid (r : Record) : Prop where
  tilesize : r.tilesize < 2 ^ 32
  pad : r.pad < 2 ^ 32
  size : r.size.1 < 2 ^ 32 ∧ r.size.2 < 2 ^ 32
  zone : r.zone < 2 ^ 8
  ti : -2 ^ 63 ≤ r.ti ∧ r.ti < 2 ^ 63
  tj : -2 ^ 63 ≤ r.tj ∧ r.tj < 2 ^ 63
  geotransform : r.geotransform.length = 6

/-- What the text of a record stands for, with some values for the members that hold doubles. -/
def jsonWith (r : Record) (resolution bounds geotransform geometry : Json) : Json :=
  .object (Json.insertMembers []
    [("key", .string r.key), ("resolution", resolution), ("tilesize", .int r.tilesize),
     ("pad", .int r.pad), ("cs_code", .string r.system), ("outputBounds", bounds),
     ("size", .array [.int r.size.1, .int r.size.2]), ("zone", .int r.zone), ("ti", .int r.ti),
     ("tj", .int r.tj), ("geotrans", geotransform), ("proj4", .string r.parameters),
     ("wkt", .string r.wellKnown), ("geometry", geometry)])

theorem reread_toJson {r : Record} (h : r.IsValid) {rings : List (List GeoJson.Position)}
    (hgeometry : r.geometry = .polygon rings .none) :
    reread Json.nestingLimit r.toJson = (do
      let resolution ← reread Json.nestingLimit (.float r.resolution)
      let bounds ← reread Json.nestingLimit (GeoJson.listJson .float r.bounds.toList)
      let geotransform ← reread Json.nestingLimit (GeoJson.listJson .float r.geotransform)
      let geometry ← reread Json.nestingLimit r.geometry.toJson
      return r.jsonWith resolution bounds geotransform geometry) := by
  have hlimit : 0 < Json.nestingLimit := by decide
  have hdepth : depth r.toJson < Json.nestingLimit := by
    have hbounds := GeoJson.depth_positionJson_le r.bounds.toList
    have htransform := GeoJson.depth_positionJson_le r.geotransform
    have hpolygon := GeoJson.depth_polygon_le rings
    rw [← hgeometry] at hpolygon
    unfold GeoJson.positionJson at hbounds htransform
    simp only [toJson, properties, List.cons_append, List.nil_append, depth, Json.membersDepth,
      Json.itemsDepth, Json.nestingLimit]
    omega
  have hcount (n : ℕ) (hn : n < 2 ^ 32) : reread Json.nestingLimit (.int n) = some (.int n) :=
    Json.reread_int hlimit (by omega) (by omega)
  have hsize : reread Json.nestingLimit (.array [.int r.size.1, .int r.size.2]) =
      some (.array [.int r.size.1, .int r.size.2]) := by
    rw [Json.reread_array (show 0 + 1 < _ by decide), List.mapM_cons, List.mapM_cons, hcount _ h.size.1,
      hcount _ h.size.2]
    rfl
  rw [toJson, Json.reread_object hdepth]
  simp only [properties, List.cons_append, List.nil_append, List.mapM_cons, Json.rereadMember,
    Json.reread_string hlimit, hcount _ h.tilesize, hcount _ h.pad, hsize,
    hcount _ (h.zone.trans (by decide)), Json.reread_int hlimit h.ti.1 (h.ti.2.trans (by decide)),
    Json.reread_int hlimit h.tj.1 (h.tj.2.trans (by decide))]
  cases reread Json.nestingLimit (.float r.resolution) with
  | none => rfl
  | some resolution =>
  cases reread Json.nestingLimit (GeoJson.listJson .float r.bounds.toList) with
  | none => rfl
  | some bounds =>
  cases reread Json.nestingLimit (GeoJson.listJson .float r.geotransform) with
  | none => rfl
  | some geotransform =>
  cases reread Json.nestingLimit r.geometry.toJson with
  | none => rfl
  | some geometry => rfl

theorem intIn?_int {low high n : ℤ} (hlow : low ≤ n) (hhigh : n ≤ high) :
    Json.intIn? low high (.int n) = some n :=
  if_pos ⟨hlow, hhigh⟩

/-- The record with other doubles, if all of them are there. -/
def withDoubles? (r : Record) (bounds geotransform : Option (List Float)) (resolution : Option Float)
    (geometry : Option GeoJson.Geometry) : Option Record := do
  let bounds ← match ← bounds with
    | [minX, minY, maxX, maxY] => some { minX, minY, maxX, maxY }
    | _ => none
  let geotransform ← geotransform
  if geotransform.length ≠ 6 then none
  let resolution ← resolution
  let geometry ← geometry
  return { r with resolution, bounds, geotransform, geometry }

theorem withDoubles?_eq_some_iff {r r' : Record} {bounds geotransform : Option (List Float)}
    {resolution : Option Float} {geometry : Option GeoJson.Geometry} :
    r.withDoubles? bounds geotransform resolution geometry = some r' ↔
      ∃ (box : Box Float) (transform : List Float) (x : Float) (g : GeoJson.Geometry),
        bounds = some box.toList ∧ geotransform = some transform ∧ transform.length = 6 ∧
        resolution = some x ∧ geometry = some g ∧
        { r with resolution := x, bounds := box, geotransform := transform, geometry := g } = r' := by
  constructor
  · intro h
    unfold withDoubles? at h
    obtain ⟨xs, hbounds, hbox⟩ := Option.bind_eq_some_iff.1 h
    dsimp only at hbox
    split at hbox
    case h_2 => cases hbox
    case h_1 minX minY maxX maxY =>
      rw [Option.bind_eq_bind, Option.bind_some] at hbox
      obtain ⟨transform, htransform, hrest⟩ := Option.bind_eq_some_iff.1 hbox
      split at hrest
      · cases hrest
      next hlength =>
      obtain ⟨x, hx, hrest⟩ := Option.bind_eq_some_iff.1 hrest
      obtain ⟨g, hg, hrest⟩ := Option.bind_eq_some_iff.1 hrest
      exact ⟨⟨minX, minY, maxX, maxY⟩, transform, x, g, hbounds, htransform, not_not.1 hlength, hx,
        hg, Option.some_inj.1 hrest⟩
  · rintro ⟨box, transform, x, g, rfl, rfl, hlength, rfl, rfl, rfl⟩
    show (if transform.length ≠ 6 then _ else _) = _
    rw [if_neg (not_not.2 hlength)]
    rfl

theorem withDoubles?_eq_none {r : Record} {bounds geotransform : Option (List Float)}
    {resolution : Option Float} {geometry : Option GeoJson.Geometry}
    (h : bounds = none ∨ geotransform = none ∨ resolution = none ∨ geometry = none) :
    r.withDoubles? bounds geotransform resolution geometry = none := by
  refine Option.eq_none_iff_forall_ne_some.2 fun r' hr' => ?_
  obtain ⟨box, transform, x, g, rfl, rfl, -, rfl, rfl, -⟩ := withDoubles?_eq_some_iff.1 hr'
  simp at h

theorem withDoubles?_eq_some_self_iff {r : Record} (h : r.geotransform.length = 6)
    {bounds geotransform : Option (List Float)} {resolution : Option Float}
    {geometry : Option GeoJson.Geometry} :
    r.withDoubles? bounds geotransform resolution geometry = some r ↔
      bounds = some r.bounds.toList ∧ geotransform = some r.geotransform ∧
        resolution = some r.resolution ∧ geometry = some r.geometry := by
  rw [withDoubles?_eq_some_iff]
  constructor
  · rintro ⟨box, transform, x, g, rfl, rfl, -, rfl, rfl, hr⟩
    rw [Record.mk.injEq] at hr
    obtain ⟨-, rfl, -, -, -, rfl, -, -, -, -, rfl, -, -, rfl⟩ := hr
    exact ⟨rfl, rfl, rfl, rfl⟩
  · rintro ⟨rfl, rfl, rfl, rfl⟩
    exact ⟨r.bounds, r.geotransform, r.resolution, r.geometry, rfl, rfl, h, rfl, rfl, rfl⟩

/-- The members that hold doubles decide what an object is read as. -/
theorem ofJson?_object {r : Record} (h : r.IsValid) (resolution bounds geotransform geometry : Json) :
    ofJson? (r.jsonWith resolution bounds geotransform geometry) =
      r.withDoubles? (list? Json.float? bounds) (list? Json.float? geotransform) resolution.float?
        (GeoJson.Geometry.ofJson? geometry) := by
  have hcount {n : ℕ} (hn : n < 2 ^ 32) :
      Json.intIn? 0 (UInt32.size - 1) (.int n) = some (n : ℤ) := by
    refine intIn?_int (Int.natCast_nonneg n) ?_
    show (n : ℤ) ≤ 4294967296 - 1
    omega
  have hindex {n : ℤ} (hn : -2 ^ 63 ≤ n ∧ n < 2 ^ 63) :
      Json.intIn? Binary64.minIndex Binary64.maxIndex (.int n) = some n :=
    intIn?_int hn.1 (Int.le_of_lt_add_one hn.2)
  have hzone : Json.intIn? 0 255 (.int r.zone) = some (r.zone : ℤ) :=
    intIn?_int (Int.natCast_nonneg _) (by have := h.zone; omega)
  have hsize : list? (Json.intIn? 0 (UInt32.size - 1)) (.array [.int r.size.1, .int r.size.2]) =
      some [(r.size.1 : ℤ), (r.size.2 : ℤ)] := by
    rw [list?, List.mapM_cons, List.mapM_cons, hcount h.size.1, hcount h.size.2]
    rfl
  unfold jsonWith ofJson?
  rw [values?_object]
  rw [Option.bind_eq_bind, Option.bind_some]
  dsimp only
  cases list? Json.float? bounds with
  | none => rfl
  | some bounds =>
  obtain _ | ⟨minX, _ | ⟨minY, _ | ⟨maxX, _ | ⟨maxY, _ | ⟨_, _⟩⟩⟩⟩⟩ := bounds
  case cons.cons.cons.cons.nil =>
    show (list? (Json.intIn? 0 (UInt32.size - 1)) (.array [.int r.size.1, .int r.size.2])).bind _ = _
    rw [hsize]
    cases list? Json.float? geotransform with
    | none => rfl
    | some geotransform =>
      by_cases hlength : geotransform.length = 6
      case neg =>
        show (if geotransform.length ≠ 6 then none else _) =
          if geotransform.length ≠ 6 then none else _
        rw [if_pos hlength, if_pos hlength]
      show (if geotransform.length ≠ 6 then _ else _) = if geotransform.length ≠ 6 then _ else _
      rw [if_neg (not_not.2 hlength), if_neg (not_not.2 hlength), hcount h.tilesize, hcount h.pad, hzone,
        hindex h.ti, hindex h.tj]
      cases resolution.float? with
      | none => rfl
      | some resolution =>
        cases GeoJson.Geometry.ofJson? geometry with
        | none => rfl
        | some geometry => rfl
  all_goals rfl

/-- The double that a double's text is read as. -/
abbrev back? : Float → Option Float := doubleBack? Json.nestingLimit

/-- A record is read as the record with what each of its doubles is read as. -/
theorem read?_line {r : Record} (h : r.IsValid) {rings : List (List GeoJson.Position)}
    (hgeometry : r.geometry = .polygon rings .none)
    (hrings : ∀ ring ∈ rings, ∀ p ∈ ring, 2 ≤ p.length) :
    read? r.line = r.withDoubles? (r.bounds.toList.mapM back?) (r.geotransform.mapM back?)
      (back? r.resolution) ((rings.mapM fun ring : List GeoJson.Position =>
        ring.mapM fun p : GeoJson.Position => p.mapM back?).map (.polygon · .none)) := by
  have hlist (xs : List Float) : (reread Json.nestingLimit (GeoJson.listJson .float xs)).bind
      (list? Json.float?) = xs.mapM back? :=
    GeoJson.reread_listJson ((GeoJson.depth_positionJson_le xs).trans_lt (by decide)) fun _ _ => rfl
  have hlimit : 4 < Json.nestingLimit := by decide
  have hpolygon := GeoJson.reread_polygon hlimit hrings
  rw [← hlist, ← hlist, ← hpolygon, ← hgeometry]
  show (reread Json.nestingLimit r.toJson).bind ofJson? = r.withDoubles? _ _
    ((reread Json.nestingLimit (.float r.resolution)).bind Json.float?) _
  rw [reread_toJson h hgeometry]
  cases reread Json.nestingLimit (.float r.resolution) with
  | none => exact (withDoubles?_eq_none (by simp)).symm
  | some resolution =>
  cases reread Json.nestingLimit (GeoJson.listJson .float r.bounds.toList) with
  | none => exact (withDoubles?_eq_none (by simp)).symm
  | some bounds =>
  cases reread Json.nestingLimit (GeoJson.listJson .float r.geotransform) with
  | none => exact (withDoubles?_eq_none (by simp)).symm
  | some geotransform =>
  cases reread Json.nestingLimit r.geometry.toJson with
  | none => exact (withDoubles?_eq_none (by simp)).symm
  | some geometry =>
    simp only [Option.bind_eq_bind, Option.bind_some, Option.pure_def]
    exact ofJson?_object h resolution bounds geotransform geometry

/-- All doubles of a record with a polygon between some rings. -/
def doubles (r : Record) (rings : List (List GeoJson.Position)) : List Float :=
  r.resolution :: (r.bounds.toList ++ r.geotransform ++ rings.flatten.flatten)

theorem mapM_rings_eq_some_self_iff {f : Float → Option Float} {rings : List (List GeoJson.Position)} :
    (rings.mapM fun ring : List GeoJson.Position => ring.mapM fun p : GeoJson.Position => p.mapM f) =
      some rings ↔ ∀ x ∈ rings.flatten.flatten, f x = some x := by
  simp only [mapM_eq_some_self_iff, List.mem_flatten]
  constructor
  · rintro h x ⟨p, ⟨ring, hring, hp⟩, hx⟩
    exact h ring hring p hp x hx
  · intro h ring hring p hp x hx
    exact h x ⟨p, ⟨ring, hring, hp⟩, hx⟩

theorem mapM_rings_eq_none {f : Float → Option Float} {rings : List (List GeoJson.Position)} {x : Float}
    (hx : x ∈ rings.flatten.flatten) (hnone : f x = none) :
    (rings.mapM fun ring : List GeoJson.Position => ring.mapM fun p : GeoJson.Position => p.mapM f) =
      none := by
  obtain ⟨p, hp, hx⟩ := List.mem_flatten.1 hx
  obtain ⟨ring, hring, hp⟩ := List.mem_flatten.1 hp
  exact mapM_eq_none_of_mem hring (mapM_eq_none_of_mem hp (mapM_eq_none_of_mem hx hnone))

section Line

variable {r : Record} {rings : List (List GeoJson.Position)}

theorem read?_line_eq_some_self_iff (h : r.IsValid) (hgeometry : r.geometry = .polygon rings .none)
    (hrings : ∀ ring ∈ rings, ∀ p ∈ ring, 2 ≤ p.length) :
    read? r.line = some r ↔ ∀ x ∈ r.doubles rings, back? x = some x := by
  have hpolygon (rings' : Option (List (List GeoJson.Position))) :
      rings'.map (GeoJson.Geometry.polygon · .none) = some r.geometry ↔ rings' = some rings := by
    rw [hgeometry, Option.map_eq_some_iff]
    constructor
    · rintro ⟨rings', rfl, heq⟩
      cases heq
      rfl
    · rintro rfl
      exact ⟨rings, rfl, rfl⟩
  rw [read?_line h hgeometry hrings, withDoubles?_eq_some_self_iff h.geotransform, hpolygon,
    mapM_eq_some_self_iff, mapM_eq_some_self_iff, mapM_rings_eq_some_self_iff, doubles,
    List.forall_mem_cons, List.forall_mem_append, List.forall_mem_append]
  tauto

theorem read?_line_eq_none (h : r.IsValid) (hgeometry : r.geometry = .polygon rings .none)
    (hrings : ∀ ring ∈ rings, ∀ p ∈ ring, 2 ≤ p.length) {x : Float} (hx : x ∈ r.doubles rings)
    (hnone : back? x = none) : read? r.line = none := by
  rw [read?_line h hgeometry hrings]
  apply withDoubles?_eq_none
  rw [doubles, List.mem_cons, List.mem_append, List.mem_append] at hx
  rcases hx with rfl | (hx | hx) | hx
  · exact Or.inr (Or.inr (Or.inl hnone))
  · exact Or.inl (mapM_eq_none_of_mem hx hnone)
  · exact Or.inr (Or.inl (mapM_eq_none_of_mem hx hnone))
  · rw [mapM_rings_eq_none hx hnone]
    exact Or.inr (Or.inr (Or.inr rfl))

end Line

end Record

/-! ## Records of tiles -/

namespace Tile

/-- The positions of a tile's outline. -/
def outlinePositions (t : Tile Float) : List (List GeoJson.Position) :=
  t.polygon.rings.map fun ring => ring.map fun q => [q.x, q.y]

theorem length_of_mem_outlinePositions {t : Tile Float} :
    ∀ ring ∈ t.outlinePositions, ∀ p ∈ ring, 2 ≤ p.length := by
  intro ring hring p hp
  obtain ⟨points, -, rfl⟩ := List.mem_map.1 hring
  obtain ⟨q, -, rfl⟩ := List.mem_map.1 hp
  exact le_rfl

theorem isValid_record {t : Tile Float} (h : t.IsValid) : t.record.IsValid := by
  have hraster : t.grid.tilesize + 2 * t.grid.pad ≤ 4294967295 := h.grid.raster
  refine ⟨?_, ?_, ?_, ?_, ?_, ?_, rfl⟩
  · show t.grid.tilesize < _
    omega
  · show t.grid.pad < _
    omega
  · show t.grid.tilesize + 2 * t.grid.pad < _ ∧ t.grid.tilesize + 2 * t.grid.pad < _
    omega
  · show t.zone < _
    have := h.zone
    omega
  · show _ ≤ t.ti ∧ t.ti < _
    have := h.ti
    omega
  · show _ ≤ t.tj ∧ t.tj < _
    have := h.tj
    omega

/-- The record of a tile that a key names is read back from its line if and only if each double in it
is finite and is read back from its own text. With a double that is not finite there is nothing to be
read at all. -/
theorem record_is_read_back_iff {text : String} {t : Tile Float} (h : ofText text = .ok t) :
    (Record.read? t.record.line = some t.record ↔
      ∀ x ∈ t.record.doubles t.outlinePositions,
        x.isFinite = true ∧ Json.read? (Json.floatText x) = some (.float x)) ∧
      ((∃ x ∈ t.record.doubles t.outlinePositions, x.isFinite = false) →
        Record.read? t.record.line = none) := by
  have hvalid := isValid_record (isValid_ofText h)
  have hlimit : 0 < Json.nestingLimit := by decide
  have hback (x : Float) : Record.back? x = some x ↔
      x.isFinite = true ∧ Json.read? (Json.floatText x) = some (.float x) := by
    refine (Json.doubleBack?_eq_some_iff hlimit).trans (and_iff_right_of_imp fun hread => ?_).symm
    by_contra hinfinite
    have hnone := Json.doubleBack?_of_not_isFinite hlimit (Bool.eq_false_iff.2 hinfinite)
    rw [(Json.doubleBack?_eq_some_iff hlimit).2 hread] at hnone
    cases hnone
  constructor
  · rw [Record.read?_line_eq_some_self_iff hvalid rfl length_of_mem_outlinePositions]
    exact forall₂_congr fun x _ => hback x
  · rintro ⟨x, hx, hinfinite⟩
    exact Record.read?_line_eq_none hvalid rfl length_of_mem_outlinePositions hx
      (Json.doubleBack?_of_not_isFinite hlimit hinfinite)

/-- A tile so wide and so far east that its eastings are beyond all doubles. -/
def overflowing : Tile Float := ⟨⟨1e308, 1, 0⟩, 31, 100, 0⟩

theorem record_is_not_read_back_of_overflow :
    ofText overflowing.toText = .ok overflowing ∧
      Record.read? overflowing.record.line = none := by
  have hread : ofText overflowing.toText = .ok overflowing :=
    ofText_toText ⟨⟨by decide, by decide +kernel, by decide⟩, by decide, by decide, by decide⟩
  refine ⟨hread, (record_is_read_back_iff hread).2 ⟨overflowing.bounds.minX, ?_, by decide +kernel⟩⟩
  exact List.mem_cons_of_mem _ (List.mem_append_left _ (List.mem_append_left _ List.mem_cons_self))

end Tile
end UtmTiles
