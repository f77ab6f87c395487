import UtmTiles.Json.Printer
import UtmTiles.Key.Basic

/-!
# Errors of grids, tiles and shapes

An error is its cause. There are four kinds of causes: positions, pixels, tile parameters and
shapes. `Error.message` is the only place where causes are put into words.
-/

namespace UtmTiles

/-- A position that has no zone, no tile or no pixel, or a pixel that has no position. -/
inductive PositionFault (α : Type) where
  | longitudeNotFinite (lon : α)
  | longitudeOutside (lon : α)
  | latitudeOutside (lat : α)
  | pixelNowhere (row col : α)
  | nowhereInZone (lon lat : α) (zone : Nat)
  deriving Repr

/-- A pixel or subtile that does not exist. -/
inductive PixelFault (α : Type) where
  | notFinite (row col : α)
  | unevenPixels (rows cols : Nat)
  | unevenPositions (lons lats : Nat)
  | outsideSubdivision (row col subdivide : Nat)
  deriving Repr

/-- The whole numbers of a tile key. -/
inductive KeyField where
  | tilesize | pad | zone | ti | tj
  deriving DecidableEq, Repr

def KeyField.name : KeyField → String
  | tilesize => "tilesize"
  | pad => "pad"
  | zone => "zone"
  | ti => "ti"
  | tj => "tj"

/-- A malformed key, or tile parameters that do not fit together. -/
inductive TileFault (α : Type) where
  | fieldCount (key : String) (found expected : Nat)
  | gridFieldCount (key : String)
  | notInteger (field : KeyField) (text : String)
  | outOfRange (field : KeyField) (text : String)
  | tilesizeOutside (tilesize : Int)
  | padOutside (pad : Int)
  | resolutionNotDecimal (text : String)
  | resolutionTextNotPositive (text : String)
  | keyZoneOutside (zone : Int)
  | zoneOutside (zone : Nat)
  | zeroTilesize
  | resolutionNotPositive (resolution : α)
  | rasterTooLarge (tilesize pad : Nat)
  | unevenSubdivision (subdivide tilesize : Nat)
  | unevenResolution (resolution footprint : α)
  | indexOutOfRange (key : TileKey α) (subdivide : Nat)
  | otherSpan (resolution : α) (tilesize : Nat) (span expected : α)
  deriving Repr

/-- A shape that does not come down to polygons on the globe. -/
inductive ShapeFault where
  | notGeoJson
  | noGeometry
  | noKind
  | notObject (value : Json)
  | notPolygonal (kind : String)
  | outsideGlobe (west south east north : Float)
  deriving Repr

/-- Why an operation on grids, tiles or shapes has no result. -/
inductive Error (α : Type) where
  | position (fault : PositionFault α)
  | pixel (fault : PixelFault α)
  | tile (fault : TileFault α)
  | shape (fault : ShapeFault)
  deriving Repr

open Decimal (plain)

def PositionFault.message : PositionFault Float → String
  | longitudeNotFinite lon => s!"Longitude must be finite, got {plain lon}"
  | longitudeOutside lon => s!"Longitude must be between -180.0 and 180.0, got {plain lon}"
  | latitudeOutside lat => s!"Latitude must be between -90 and 90, got {plain lat}"
  | pixelNowhere row col =>
    s!"Pixel ({plain row}, {plain col}) is not transformable to lat/lon"
  | nowhereInZone lon lat zone =>
    s!"({plain lon}, {plain lat}) is not transformable to zone {zone}"

def PixelFault.message : PixelFault Float → String
  | notFinite row col => s!"Row and column must be finite, got ({plain row}, {plain col})"
  | unevenPixels rows cols => s!"Got {rows} rows but {cols} columns"
  | unevenPositions lons lats => s!"Got {lons} longitudes but {lats} latitudes"
  | outsideSubdivision row col subdivide =>
    s!"Subtile ({row}, {col}) is outside of the {subdivide}x{subdivide} subdivision"

/-- The wording of a fault in a key or in tile parameters. -/
def TileFault.message : TileFault Float → String
  | fieldCount key found expected => s!"Key '{key}' has {found} fields, expected {expected}"
  | gridFieldCount key => s!"Invalid grid key '{key}'"
  | notInteger field text => s!"{field.name} must be an integer, got '{text}'"
  | outOfRange field text => s!"{field.name} is out of range, got '{text}'"
  | tilesizeOutside tilesize => s!"tilesize must be greater than zero, got {tilesize}"
  | padOutside pad => s!"pad must be non-negative, got {pad}"
  | resolutionNotDecimal text => s!"resolution must be a decimal number, got '{text}'"
  | resolutionTextNotPositive text => s!"resolution must be greater than zero, got {text}"
  | keyZoneOutside zone => s!"zone must be between 1 and 60, got {zone}"
  | zoneOutside zone => s!"Zones must be between 1 and 60, got {zone}"
  | zeroTilesize => "Tile size must be greater than zero"
  | resolutionNotPositive resolution =>
    s!"Resolution must be greater than zero, got {plain resolution}"
  | rasterTooLarge tilesize pad =>
    s!"Tile size {tilesize} with pad {pad} exceeds the maximal raster size"
  | unevenSubdivision subdivide tilesize =>
    s!"Subdivide ratio {subdivide} must evenly divide the tilesize {tilesize}"
  | unevenResolution resolution footprint =>
    s!"Resolution {plain resolution} does not evenly divide the subtile footprint of " ++
      s!"{plain footprint} m"
  | indexOutOfRange key subdivide =>
    s!"Tile indices of {key.toText} are out of range for subdivide ratio {subdivide}"
  | otherSpan resolution tilesize span expected =>
    s!"Resolution {plain resolution} and tilesize {tilesize} span {plain span} m instead of " ++
      s!"{plain expected} m"

def ShapeFault.message : ShapeFault → String
  | notGeoJson => "Invalid GeoJSON"
  | noGeometry => "Feature without geometry"
  | noKind => "Mapping needs a `type`, `geometry` or `features` member"
  | notObject value => "Not a GeoJSON object: " ++ value.compact
  | notPolygonal kind => "Geometries must be Polygon or MultiPolygon, got " ++ kind
  | outsideGlobe west south east north =>
    s!"Shape bounds ({plain west}, {plain south}, {plain east}, {plain north}) exceed the WGS84 range"

/-- The kind of an error and what is wrong. -/
def Error.message : Error Float → String
  | position fault => "Invalid lat/lon: " ++ fault.message
  | pixel fault => "Invalid row/col: " ++ fault.message
  | tile fault => "Invalid tile: " ++ fault.message
  | shape fault => "Invalid shape: " ++ fault.message

end UtmTiles
