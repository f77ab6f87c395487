import UtmTiles.Tile.Basic

/-!
# Pixels

Rows count downwards from the top of a tile's raster, columns from its left. A pixel stands for the
position of its center; the pixel of a position is the one whose square holds its projection.
-/

namespace UtmTiles
namespace Tile

variable {α : Type} [Elementary α]

/-- Column of the raster's left edge, counted in pixels from the central meridian. -/
def minCol (t : Tile α) : α :=
  Scalar.ofInt t.grid.tilesize * Scalar.ofInt t.ti - Scalar.ofInt t.grid.pad

/-- Row of the raster's top edge, counted in pixels from the equator upwards. -/
def maxRow (t : Tile α) : α :=
  Scalar.ofInt t.grid.tilesize * (Scalar.ofInt t.tj + 1.0) + Scalar.ofInt t.grid.pad

/-- The point at the center of a pixel, with its northing from the equator. -/
def pixelCenter (t : Tile α) (row col : α) : Point α :=
  ⟨(col + t.minCol + 0.5) * t.grid.resolution + Utm.falseEasting,
   (t.maxRow - row - 0.5) * t.grid.resolution⟩

def positionOf (t : Tile α) (row col : α) : Except (Error α) (Point α) :=
  if !Scalar.isFinite row || !Scalar.isFinite col then .error (.pixel (.notFinite row col))
  else
    let center := t.pixelCenter row col
    let (lon, lat) := Utm.unproject t.zone center.x center.y
    if !Scalar.isFinite lon || !Scalar.isFinite lat then
      .error (.position (.pixelNowhere row col))
    else .ok ⟨lon, lat⟩

/-- Row and column, not yet rounded down, of a point in the tile's zone. -/
def pixelAt (t : Tile α) (easting northing : α) : α × α :=
  (t.maxRow - northing / t.grid.resolution,
   (easting - Utm.falseEasting) / t.grid.resolution - t.minCol)

def pixelOf (t : Tile α) (lon lat : α) : Except (Error α) (Int × Int) :=
  if !Scalar.isFinite lon then .error (.position (.longitudeNotFinite lon))
  else if ¬ Zone.HasLat lat then .error (.position (.latitudeOutside lat))
  else
    let (easting, northing) := Utm.project t.zone lon lat
    let (row, col) := t.pixelAt easting northing
    if !Scalar.isFinite row || !Scalar.isFinite col then
      .error (.position (.nowhereInZone lon lat t.zone))
    else .ok (Scalar.floorIndex row, Scalar.floorIndex col)

def positionsOf (t : Tile α) (rows cols : List α) : Except (Error α) (List (Point α)) :=
  if rows.length ≠ cols.length then .error (.pixel (.unevenPixels rows.length cols.length))
  else (rows.zip cols).mapM fun (row, col) => t.positionOf row col

def pixelsOf (t : Tile α) (lons lats : List α) : Except (Error α) (List (Int × Int)) :=
  if lons.length ≠ lats.length then .error (.pixel (.unevenPositions lons.length lats.length))
  else (lons.zip lats).mapM fun (lon, lat) => t.pixelOf lon lat

end Tile
end UtmTiles
