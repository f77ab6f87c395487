import UtmTiles.Json.Basic
import UtmTiles.Plane.Basic
import UtmTiles.Scalar.Binary64

/-!
# GeoJSON documents

A document is a geometry, a feature or a collection of features. Members that have no meaning are
kept, so that a geometry is written as it has been read.
-/

namespace UtmTiles
namespace GeoJson

/-- Longitude, latitude, and possibly further ordinates. -/
abbrev Position := List Float

/-- What any object of a document may hold besides its own members. -/
structure Extras where
  bbox : Option (List Float)
  foreign : List (String × Json)
  deriving Repr

def Extras.none : Extras := ⟨.none, []⟩

/-- A geometry. The rings of a polygon come exterior first. -/
inductive Geometry where
  | point (position : Position) (extras : Extras)
  | multiPoint (positions : List Position) (extras : Extras)
  | lineString (positions : List Position) (extras : Extras)
  | multiLineString (lines : List (List Position)) (extras : Extras)
  | polygon (rings : List (List Position)) (extras : Extras)
  | multiPolygon (polygons : List (List (List Position))) (extras : Extras)
  | collection (geometries : List Geometry) (extras : Extras)
  deriving Repr

/-- A geometry with properties. -/
structure Feature where
  geometry : Option Geometry
  properties : Option (List (String × Json))
  /-- A string or a number. -/
  id : Option Json
  extras : Extras
  deriving Repr

/-- Several features. -/
structure FeatureCollection where
  features : List Feature
  extras : Extras
  deriving Repr

/-- A document. -/
inductive Document where
  | geometry (geometry : Geometry)
  | feature (feature : Feature)
  | featureCollection (collection : FeatureCollection)
  deriving Repr

namespace Geometry

def kind : Geometry → String
  | point .. => "Point"
  | multiPoint .. => "MultiPoint"
  | lineString .. => "LineString"
  | multiLineString .. => "MultiLineString"
  | polygon .. => "Polygon"
  | multiPolygon .. => "MultiPolygon"
  | collection .. => "GeometryCollection"

/-- What a geometry holds besides its own members. -/
def extras : Geometry → Extras
  | point _ extras | multiPoint _ extras | lineString _ extras | multiLineString _ extras
  | polygon _ extras | multiPolygon _ extras | collection _ extras => extras

end Geometry

/-! ### Writing -/

def listJson {β : Type} (item : β → Json) (items : List β) : Json := .array (items.map item)

def positionJson : Position → Json := listJson .float

def Extras.members (extras : Extras) : List (String × Json) :=
  (extras.bbox.map fun bbox => ("bbox", positionJson bbox)).toList ++ extras.foreign

mutual

/-- A geometry as an object: its type, its coordinates or geometries, and all else. -/
def Geometry.toJson : Geometry → Json
  | .point p extras => located "Point" (positionJson p) extras
  | .multiPoint ps extras => located "MultiPoint" (listJson positionJson ps) extras
  | .lineString ps extras => located "LineString" (listJson positionJson ps) extras
  | .multiLineString ls extras =>
    located "MultiLineString" (listJson (listJson positionJson) ls) extras
  | .polygon rs extras => located "Polygon" (listJson (listJson positionJson) rs) extras
  | .multiPolygon ps extras =>
    located "MultiPolygon" (listJson (listJson (listJson positionJson)) ps) extras
  | .collection gs extras =>
    .object (("type", .string "GeometryCollection") :: ("geometries", .array (geometriesJson gs)) ::
      extras.members)
where
  /-- A geometry with coordinates as an object. -/
  located (kind : String) (coordinates : Json) (extras : Extras) : Json :=
    .object (("type", .string kind) :: ("coordinates", coordinates) :: extras.members)

def geometriesJson : List Geometry → List Json
  | [] => []
  | g :: rest => g.toJson :: geometriesJson rest

end

def Feature.toJson (f : Feature) : Json :=
  .object
    ([("type", .string "Feature"),
      ("geometry", (f.geometry.map Geometry.toJson).getD .null),
      ("properties", (f.properties.map Json.object).getD .null)] ++
     (f.id.map fun id => ("id", id)).toList ++ f.extras.members)

/-! ### Polygons -/

/-- The point at a position's longitude and latitude. -/
def pointOf : Position → Option (Point Float)
  | x :: y :: _ => some ⟨x, y⟩
  | _ => none

def pointsOf (positions : List Position) : List (Point Float) := positions.filterMap pointOf

/-- The polygon between some rings. A polygon without rings has an exterior without points. -/
def polygonOf : List (List Position) → Polygon Float
  | [] => Polygon.ofRings [] []
  | exterior :: interiors => Polygon.ofRings (pointsOf exterior) (interiors.map pointsOf)

end GeoJson
end UtmTiles
