import UtmTiles.Grid.Basic
import UtmTiles.Utm.Footprint

/-!
# Tiles

A tile is a cell of a grid's lattice in one zone. `ti` counts cells eastwards from the central
meridian and `tj` northwards from the equator.

Tiles north of the equator are described in the northern coordinate system of their zone, the others
in the southern one, whose northings are larger by 10000 km. `cell` and `utmBounds` always use
northings that count from the equator.
-/

namespace UtmTiles

/-- A cell of a grid in a zone. -/
@[ext]
structure Tile (α : Type) where
  grid : Grid α
  zone : Nat
  ti : Int
  tj : Int
  deriving DecidableEq, Repr

namespace Tile

/-! ### Keys -/

def ofKey {α : Type} [Scalar α] (key : TileKey α) : Except (Error α) (Tile α) := do
  let grid ← Grid.make key.resolution key.tilesize key.pad
  return { grid, zone := key.zone, ti := key.ti, tj := key.tj }

def key {α : Type} (t : Tile α) : TileKey α where
  tilesize := t.grid.tilesize
  pad := t.grid.pad
  resolution := t.grid.resolution
  zone := t.zone
  ti := t.ti
  tj := t.tj

def ofText (text : String) : Except (Error Float) (Tile Float) := do
  let key ← (TileKey.read text).mapError .tile
  ofKey key

/-- The key of a tile in its written form. -/
def toText (t : Tile Float) : String := t.key.toText

/-! ### Place -/

section Place

variable {α : Type} [Elementary α]

def cell (t : Tile α) : Box α :=
  let step := t.grid.step
  { minX := Utm.falseEasting + Scalar.ofInt t.ti * step
    minY := Scalar.ofInt t.tj * step
    maxX := Utm.falseEasting + (Scalar.ofInt t.ti + 1.0) * step
    maxY := (Scalar.ofInt t.tj + 1.0) * step }

/-- The raster's box, with northings from the equator. -/
def utmBounds (t : Tile α) : Box α := t.cell.buffered (t.grid.meters t.grid.pad)

/-- The side of the equator that the tile is on. -/
def hemisphere (t : Tile α) : Hemisphere := if 0 ≤ t.tj then .north else .south

/-- What the northings of the tile's coordinate system have at the equator. -/
def falseNorthing (t : Tile α) : α :=
  match t.hemisphere with
  | .north => 0.0
  | .south => Utm.southNorthing

/-- The raster's box in the tile's coordinate system. -/
def bounds (t : Tile α) : Box α := t.utmBounds.shiftedNorth t.falseNorthing

/-- The EPSG code of the tile's coordinate system. -/
def epsg (t : Tile α) : Nat := Zone.epsgCode t.zone t.hemisphere

/-- The name of the tile's coordinate system. -/
def systemName (t : Tile α) : String := Zone.systemName t.epsg

/-- Where pixels lie: left, pixel width, 0, top, 0 and the negative pixel height. -/
def geotransform (t : Tile α) : List α :=
  [t.bounds.minX, t.grid.resolution, 0.0, t.bounds.maxY, 0.0, -t.grid.resolution]

/-! ### Outlines -/

/-- The polygon of the positions of a box's corners. -/
def outline (zone : Nat) (box : Box α) : Polygon α :=
  Polygon.ofRings (Utm.cornerPositions zone box) []

def polygon (t : Tile α) : Polygon α := outline t.zone t.utmBounds

def cellPolygon (t : Tile α) : Polygon α := outline t.zone t.cell

/-- The part of the globe that the raster covers. -/
def footprint (t : Tile α) : MultiPolygon α := Utm.footprint t.zone t.utmBounds

def center (t : Tile α) : Point α :=
  let box := t.cell
  let (lon, lat) :=
    Utm.unproject t.zone ((box.minX + box.maxX) / 2.0) ((box.minY + box.maxY) / 2.0)
  ⟨lon, lat⟩

/-- The center lies beyond 80° of latitude. -/
def isPolar (t : Tile α) : Bool := decide (Zone.polarLatitude < Scalar.abs t.center.y)

end Place

end Tile

/-- The tile of a grid that holds a position with a longitude in [-180, 180]. -/
def Grid.tileAt {α : Type} [Elementary α] (g : Grid α) (lon lat : α) :
    Except (Error α) (Tile α) :=
  if ¬ Zone.HasLon lon then .error (.position (.longitudeOutside lon))
  else do
    let zone ← Zone.ofPosition lon lat
    let (x, y) := Utm.project zone.number lon lat
    return {
      grid := g
      zone := zone.number
      ti := Scalar.floorIndex ((x - Utm.falseEasting) / g.step)
      tj := Scalar.floorIndex (y / g.step) }

end UtmTiles
