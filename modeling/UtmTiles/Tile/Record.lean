import UtmTiles.GeoJson.Reader
import UtmTiles.Json.Printer
import UtmTiles.Tile.Basic

/-!
# Tile records

A record says all about a tile that a program needs to warp a raster onto it: its grid and place,
its coordinate system by code, as projection parameters and as well-known text, the bounds and the
geotransform of its raster, and its outline as a geometry.

A record is written as a JSON object. It is read from an object with all of these members, or from
an array of their values. Whole numbers are accepted for doubles, and not the other way round.
-/

namespace UtmTiles

/-- What a record says about a tile. -/
structure Record where
  key : String
  resolution : Float
  tilesize : Nat
  pad : Nat
  /-- The name of the coordinate system. -/
  system : String
  /-- The raster's box in the coordinate system. -/
  bounds : Box Float
  /-- Width and height of the raster in pixels. -/
  size : Nat × Nat
  zone : Nat
  ti : Int
  tj : Int
  geotransform : List Float
  /-- The coordinate system as projection parameters. -/
  parameters : String
  /-- The coordinate system as well-known text. -/
  wellKnown : String
  /-- The outline of the raster. -/
  geometry : GeoJson.Geometry
  deriving Repr

/-! ### Coordinate systems -/

/-- A zone's coordinate system as projection parameters. -/
def Zone.parameters (zone : Nat) (hemisphere : Hemisphere) : String :=
  let south := match hemisphere with
    | .north => ""
    | .south => " +south"
  s!"+proj=utm +zone={zone}{south} +datum=WGS84 +units=m +no_defs"

/-- A zone's coordinate system as well-known text. -/
def Zone.wellKnown (zone : Nat) (hemisphere : Hemisphere) : String :=
  let (letter, northing) := match hemisphere with
    | .north => ("N", "0")
    | .south => ("S", "10000000")
  let meridian : Int := zone * 6 - 183
  "PROJCS[\"WGS 84 / UTM zone " ++ toString zone ++ letter ++ "\"," ++
  "GEOGCS[\"WGS 84\",DATUM[\"WGS_1984\"," ++
  "SPHEROID[\"WGS 84\",6378137,298.257223563,AUTHORITY[\"EPSG\",\"7030\"]]," ++
  "AUTHORITY[\"EPSG\",\"6326\"]]," ++
  "PRIMEM[\"Greenwich\",0,AUTHORITY[\"EPSG\",\"8901\"]]," ++
  "UNIT[\"degree\",0.0174532925199433,AUTHORITY[\"EPSG\",\"9122\"]]," ++
  "AUTHORITY[\"EPSG\",\"4326\"]]," ++
  "PROJECTION[\"Transverse_Mercator\"]," ++
  "PARAMETER[\"latitude_of_origin\",0]," ++
  "PARAMETER[\"central_meridian\"," ++ toString meridian ++ "]," ++
  "PARAMETER[\"scale_factor\",0.9996]," ++
  "PARAMETER[\"false_easting\",500000]," ++
  "PARAMETER[\"false_northing\"," ++ northing ++ "]," ++
  "UNIT[\"metre\",1,AUTHORITY[\"EPSG\",\"9001\"]]," ++
  "AXIS[\"Easting\",EAST],AXIS[\"Northing\",NORTH]," ++
  "AUTHORITY[\"EPSG\",\"" ++ toString (epsgCode zone hemisphere) ++ "\"]]"

/-! ### Records of tiles -/

def GeoJson.Geometry.ofPolygon (p : Polygon Float) : GeoJson.Geometry :=
  .polygon (p.rings.map fun ring => ring.map fun q => [q.x, q.y]) .none

def Tile.record (t : Tile Float) : Record where
  key := t.toText
  resolution := t.grid.resolution
  tilesize := t.grid.tilesize
  pad := t.grid.pad
  system := t.systemName
  bounds := t.bounds
  size := (t.grid.rasterSize, t.grid.rasterSize)
  zone := t.zone
  ti := t.ti
  tj := t.tj
  geotransform := t.geotransform
  parameters := Zone.parameters t.zone t.hemisphere
  wellKnown := Zone.wellKnown t.zone t.hemisphere
  geometry := .ofPolygon t.polygon

namespace Record

/-! ### Writing -/

/-- The members of a record, but for the geometry. -/
def properties (r : Record) : List (String × Json) :=
  [("key", .string r.key),
   ("resolution", .float r.resolution),
   ("tilesize", .int r.tilesize),
   ("pad", .int r.pad),
   ("cs_code", .string r.system),
   ("outputBounds", GeoJson.listJson .float r.bounds.toList),
   ("size", .array [.int r.size.1, .int r.size.2]),
   ("zone", .int r.zone),
   ("ti", .int r.ti),
   ("tj", .int r.tj),
   ("geotrans", GeoJson.listJson .float r.geotransform),
   ("proj4", .string r.parameters),
   ("wkt", .string r.wellKnown)]

def toJson (r : Record) : Json := .object (r.properties ++ [("geometry", r.geometry.toJson)])

/-- A record as a feature: its geometry, with all else as properties. -/
def feature (r : Record) : GeoJson.Feature where
  geometry := some r.geometry
  properties := some r.properties
  id := some (.string r.key)
  extras := .none

def line (r : Record) : String := r.toJson.compact

/-! ### Reading -/

/-- The names of the members, in the order of an array of values. -/
def memberNames : List String :=
  ["key", "resolution", "tilesize", "pad", "cs_code", "outputBounds", "size", "zone", "ti", "tj",
   "geotrans", "proj4", "wkt", "geometry"]

/-- The values of the members, in order. -/
def values? : Json → Option (List Json)
  | .object members => memberNames.mapM fun name => members.lookup name
  | .array items => some items
  | _ => none

def ofJson? (v : Json) : Option Record := do
  match ← values? v with
  | [key, resolution, tilesize, pad, system, bounds, size, zone, ti, tj, geotransform, parameters,
      wellKnown, geometry] =>
    let count := Json.intIn? 0 (UInt32.size - 1)
    let index := Json.intIn? Binary64.minIndex Binary64.maxIndex
    let bounds ← match ← GeoJson.list? Json.float? bounds with
      | [minX, minY, maxX, maxY] => some { minX, minY, maxX, maxY }
      | _ => none
    let size ← match ← GeoJson.list? count size with
      | [width, height] => some (width.toNat, height.toNat)
      | _ => none
    let geotransform ← GeoJson.list? Json.float? geotransform
    if geotransform.length ≠ 6 then none
    return {
      key := ← key.string?
      resolution := ← resolution.float?
      tilesize := (← count tilesize).toNat
      pad := (← count pad).toNat
      system := ← system.string?
      bounds
      size
      zone := (← zone.intIn? 0 255).toNat
      ti := ← index ti
      tj := ← index tj
      geotransform
      parameters := ← parameters.string?
      wellKnown := ← wellKnown.string?
      geometry := ← GeoJson.Geometry.ofJson? geometry }
  | _ => none

/-! ### Comparing -/

/-- Two lists of doubles are equal as numbers. -/
def sameNumbers (xs ys : List Float) : Bool :=
  xs.length == ys.length && (xs.zip ys).all fun (x, y) => x == y

/-- Two records agree in all but the geometry. -/
def agrees (a b : Record) : Bool :=
  a.key == b.key && a.resolution == b.resolution && a.tilesize == b.tilesize && a.pad == b.pad &&
    a.system == b.system && sameNumbers a.bounds.toList b.bounds.toList && a.size == b.size &&
    a.zone == b.zone && a.ti == b.ti && a.tj == b.tj &&
    sameNumbers a.geotransform b.geotransform && a.parameters == b.parameters &&
    a.wellKnown == b.wellKnown

end Record
end UtmTiles
