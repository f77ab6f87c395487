import UtmTiles.Decimal.Printer
import UtmTiles.Json.Printer
import UtmTiles.Shape.Basic
import UtmTiles.Text.Quoted

/-!
# Describing shapes

`Shape.describe` writes a shape as an expression: constructors with their arguments in parentheses,
records with named fields in braces, lists in brackets. Figures are written as well-known text.
-/

namespace UtmTiles

namespace Description

def commas (texts : List String) : String := ", ".intercalate texts

def list {β : Type} (item : β → String) (items : List β) : String :=
  "[" ++ commas (items.map item) ++ "]"

def call (name argument : String) : String := name ++ "(" ++ argument ++ ")"

def option {β : Type} (item : β → String) : Option β → String
  | some b => call "Some" (item b)
  | none => "None"

def record (name : String) (fields : List (String × String)) : String :=
  name ++ " \x7b " ++ commas (fields.map fun (field, value) => field ++ ": " ++ value) ++ " \x7d"

def table (entries : List (String × String)) : String :=
  "\x7b" ++ commas (entries.map fun (name, value) => Text.quoted name ++ ": " ++ value) ++ "\x7d"

end Description

open Description

mutual

def Json.describe : Json → String
  | .null => "Null"
  | .bool b => call "Bool" (if b then "true" else "false")
  | .int n => call "Number" (toString n)
  | .float x => call "Number" (Json.floatText x)
  | .string s => call "String" (Text.quoted s)
  | .array items => "Array [" ++ commas (Json.describeItems items) ++ "]"
  | .object members => "Object " ++ table (Json.describeMembers members)

/-- The items of an array as expressions. -/
def Json.describeItems : List Json → List String
  | [] => []
  | v :: rest => v.describe :: Json.describeItems rest

/-- The members of an object as expressions. -/
def Json.describeMembers : List (String × Json) → List (String × String)
  | [] => []
  | (name, v) :: rest => (name, v.describe) :: Json.describeMembers rest

end

namespace GeoJson

def describeNumbers : List Float → String := list Decimal.marked

/-- The members of an object that have no meaning. -/
def Extras.describeForeign (extras : Extras) : String :=
  if extras.foreign.isEmpty then "None"
  else call "Some" (table (Json.describeMembers extras.foreign))

/-- A record with extras around its own fields. -/
def Extras.describe (extras : Extras) (name : String) (fields : List (String × String)) : String :=
  record name (("bbox", option describeNumbers extras.bbox) :: fields ++
    [("foreign_members", extras.describeForeign)])

mutual

def Geometry.describe : Geometry → String
  | .point p extras => located "Point" (describeNumbers p) extras
  | .multiPoint ps extras => located "MultiPoint" (list describeNumbers ps) extras
  | .lineString ps extras => located "LineString" (list describeNumbers ps) extras
  | .multiLineString ls extras => located "MultiLineString" (list (list describeNumbers) ls) extras
  | .polygon rs extras => located "Polygon" (list (list describeNumbers) rs) extras
  | .multiPolygon ps extras =>
    located "MultiPolygon" (list (list (list describeNumbers)) ps) extras
  | .collection gs extras =>
    located "GeometryCollection" ("[" ++ commas (describeGeometries gs) ++ "]") extras
where
  /-- A geometry with its kind and its coordinates. -/
  located (kind coordinates : String) (extras : Extras) : String :=
    extras.describe "Geometry" [("value", call kind coordinates)]

def describeGeometries : List Geometry → List String
  | [] => []
  | g :: rest => g.describe :: describeGeometries rest

end

def describeId : Json → String
  | .string s => call "String" (Text.quoted s)
  | v => call "Number" v.describe

def Feature.describe (f : Feature) : String :=
  f.extras.describe "Feature"
    [("geometry", option Geometry.describe f.geometry),
     ("id", option describeId f.id),
     ("properties", option (fun members => table (Json.describeMembers members)) f.properties)]

def Document.describe : Document → String
  | .geometry g => call "Geometry" g.describe
  | .feature f => call "Feature" f.describe
  | .featureCollection c =>
    call "FeatureCollection"
      (c.extras.describe "FeatureCollection" [("features", list Feature.describe c.features)])

end GeoJson

namespace Figure

def pointText (p : Point Float) : String := Decimal.marked p.x ++ " " ++ Decimal.marked p.y

def pathText (points : List (Point Float)) : String := ",".intercalate (points.map pointText)

/-- Paths in parentheses, with commas between them. -/
def pathsText (paths : List (List (Point Float))) : String :=
  ",".intercalate (paths.map fun path => "(" ++ pathText path ++ ")")

mutual

def describe : Figure → String
  | point p => call "POINT" (pointText p)
  | line p q => call "LINE" (pathText [p, q])
  | lineString points => call "LINESTRING" (pathText points)
  | polygon p => call "POLYGON" (pathsText p.rings)
  | multiPoint points => call "MULTIPOINT" (pathText points)
  | multiLineString lines => call "MULTILINESTRING" (pathsText lines)
  | multiPolygon ps =>
    call "MULTIPOLYGON" (",".intercalate (ps.map fun p => "(" ++ pathsText p.rings ++ ")"))
  | rectangle p q =>
    let box := Box.ofCorners p q
    call "RECT" (pathText [⟨box.minX, box.minY⟩, ⟨box.maxX, box.maxY⟩])
  | triangle p q r => call "TRIANGLE" (pathText [p, q, r])
  | collection figures => call "GEOMETRYCOLLECTION" (",".intercalate (describeAll figures))

def describeAll : List Figure → List String
  | [] => []
  | f :: rest => f.describe :: describeAll rest

end

end Figure

namespace Shape

mutual

/-- A shape as an expression. What an object gives for itself is not shown. -/
def describe : Shape → String
  | text s => call "GeoJsonString" (Text.quoted s)
  | document d => call "GeoJson" d.describe
  | mapping v => call "Json" v.describe
  | figure f => call "Geometry" f.describe
  | interface _ => "GeoInterface(..)"
  | collection shapes => call "Collection" ("[" ++ commas (describeAll shapes) ++ "]")

def describeAll : List Shape → List String
  | [] => []
  | shape :: rest => shape.describe :: describeAll rest

end

end Shape
end UtmTiles
