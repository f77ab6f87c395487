import UtmTiles.GeoJson.Basic
import UtmTiles.Json.Reader

/-!
# Reading GeoJSON

A document is an object with a known `type`. A position has at least two numbers, coordinates are
arrays of the depth that the type asks for, and a feature has a `geometry`, which may be `null`.
-/

namespace UtmTiles

namespace Json

/-- A value of an object is smaller than the object. -/
theorem sizeOf_lookup {name : String} {v : Json} :
    ∀ {members : List (String × Json)}, members.lookup name = some v → sizeOf v < sizeOf members
  | [], h => by simp at h
  | (n, w) :: rest, h => by
    rw [List.lookup_cons] at h
    split at h
    · cases h
      simp
      omega
    · have := sizeOf_lookup h
      simp
      omega

end Json

namespace GeoJson

def list? {β : Type} (item? : Json → Option β) : Json → Option (List β)
  | .array items => items.mapM item?
  | _ => none

/-- A position from an array of two or more numbers. -/
def position? (v : Json) : Option Position := do
  let numbers ← list? Json.float? v
  if 2 ≤ numbers.length then some numbers else none

/-- The members of an object that are none of its own. -/
def foreign (members : List (String × Json)) (own : List String) : List (String × Json) :=
  members.filter fun (name, _) => !own.contains name

/-- What an object holds besides its own members. -/
def extras? (members : List (String × Json)) (own : List String) : Option Extras := do
  let bbox ← match members.lookup "bbox" with
    | some v => (list? Json.float? v).map some
    | none => some none
  return { bbox, foreign := foreign members ("type" :: "bbox" :: own) }

def located? (kind : String) (coordinates : Json) (extras : Extras) : Option Geometry :=
  match kind with
  | "Point" => (position? coordinates).map (.point · extras)
  | "MultiPoint" => (list? position? coordinates).map (.multiPoint · extras)
  | "LineString" => (list? position? coordinates).map (.lineString · extras)
  | "MultiLineString" => (list? (list? position?) coordinates).map (.multiLineString · extras)
  | "Polygon" => (list? (list? position?) coordinates).map (.polygon · extras)
  | "MultiPolygon" => (list? (list? (list? position?)) coordinates).map (.multiPolygon · extras)
  | _ => none

/-- The geometry that a value describes. -/
def Geometry.ofJson? : Json → Option Geometry
  | .object members =>
    match members.lookup "type" with
    | some (.string "GeometryCollection") =>
      match _h : members.lookup "geometries" with
      | some (.array items) => do
        let geometries ← items.attach.mapM fun ⟨item, _⟩ => ofJson? item
        return .collection geometries (← extras? members ["geometries"])
      | _ => none
    | some (.string kind) => do
      located? kind (← members.lookup "coordinates") (← extras? members ["coordinates"])
    | _ => none
  | _ => none
termination_by v => sizeOf v
decreasing_by
  have h₁ := Json.sizeOf_lookup _h
  have h₂ := List.sizeOf_lt_of_mem ‹item ∈ items›
  simp at h₁ ⊢
  omega

/-- The geometry of a feature, which may be `null`. -/
def Feature.geometry? : Json → Option (Option Geometry)
  | .null => some none
  | v => (Geometry.ofJson? v).map some

/-- The properties of a feature, which may be `null` or left out. -/
def Feature.properties? : Option Json → Option (Option (List (String × Json)))
  | some (.object properties) => some (some properties)
  | some .null | none => some none
  | some _ => none

/-- The name of a feature: a string or a number, if there is one. -/
def Feature.id? : Option Json → Option (Option Json)
  | some (.string s) => some (some (.string s))
  | some (.int n) => some (some (.int n))
  | some (.float x) => some (some (.float x))
  | some _ => none
  | none => some none

/-- The feature that a value describes. -/
def Feature.ofJson? : Json → Option Feature
  | .object members => do
    if members.lookup "type" matches some (.string "Feature") then
      let geometry ← Feature.geometry? (← members.lookup "geometry")
      let properties ← Feature.properties? (members.lookup "properties")
      let id ← Feature.id? (members.lookup "id")
      return { geometry, properties, id, extras := ← extras? members ["geometry", "properties", "id"] }
    else none
  | _ => none

/-- The collection of features that a value describes. -/
def FeatureCollection.ofJson? : Json → Option FeatureCollection
  | .object members => do
    if members.lookup "type" matches some (.string "FeatureCollection") then
      let features ← list? Feature.ofJson? (← members.lookup "features")
      return { features, extras := ← extras? members ["features"] }
    else none
  | _ => none

/-- The document that a value describes. -/
def Document.ofJson? (v : Json) : Option Document :=
  match v.member? "type" with
  | some (.string "Feature") => (Feature.ofJson? v).map .feature
  | some (.string "FeatureCollection") => (FeatureCollection.ofJson? v).map .featureCollection
  | _ => (Geometry.ofJson? v).map .geometry

def Document.read? (text : String) : Option Document := do
  Document.ofJson? (← Json.read? text)

end GeoJson
end UtmTiles
