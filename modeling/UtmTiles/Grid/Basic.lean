import UtmTiles.Key.Reader
import UtmTiles.Utm.Projection

/-!
# Grids

A grid lays square tiles over the plane of every zone. The tiles are `tilesize * resolution` meters
wide and meet at the zone's central meridian on the equator. The raster of a tile has `pad` pixels
more on every side, so the rasters of neighbors overlap by `2 * pad` pixels.

`Grid.make` accepts the numbers that make sense: at least one pixel, a finite positive resolution,
and a raster whose width is below `2 ^ 32`.
-/

namespace UtmTiles

/-- The numbers that fix the tiles of every zone. -/
structure Grid (α : Type) where
  /-- Size of a pixel in meters. -/
  resolution : α
  /-- Width and height of a tile in pixels, without padding. -/
  tilesize : Nat
  /-- Extra pixels on every side of a tile. -/
  pad : Nat
  deriving DecidableEq, Repr

namespace Grid

section Numbers

variable {α : Type} [Scalar α]

/-- A resolution must be finite and positive. -/
def IsResolution (resolution : α) : Prop := Scalar.isFinite resolution = true ∧ 0.0 < resolution

instance (resolution : α) : Decidable (IsResolution resolution) :=
  inferInstanceAs (Decidable (_ ∧ _))

def make (resolution : α) (tilesize pad : Nat) : Except (Error α) (Grid α) :=
  if tilesize = 0 then .error (.tile .zeroTilesize)
  else if ¬ IsResolution resolution then .error (.tile (.resolutionNotPositive resolution))
  else if TileKey.maxPixels < tilesize + 2 * pad then .error (.tile (.rasterTooLarge tilesize pad))
  else .ok { resolution, tilesize, pad }

/-- Width and height of a tile's raster in pixels. -/
def rasterSize (g : Grid α) : Nat := g.tilesize + 2 * g.pad

def meters (g : Grid α) (pixels : Nat) : α := Scalar.ofInt pixels * g.resolution

/-- Width and height of a tile in meters: the step of the lattice. -/
def step (g : Grid α) : α := g.meters g.tilesize

/-- Width and height of a tile's raster in meters. -/
def rasterMeters (g : Grid α) : α := g.meters g.rasterSize

end Numbers

def toText (g : Grid Float) : String := TileKey.gridText g.tilesize g.pad g.resolution

/-- The grid that a text is the key of. -/
def ofText (text : String) : Except (Error Float) (Grid Float) :=
  match Text.fields ':' text.toList with
  | [tilesize, pad, resolution] => do
    let tilesize ← (TileKey.readTilesize tilesize).mapError .tile
    let pad ← (TileKey.readPad pad).mapError .tile
    let resolution ← (TileKey.readResolution resolution).mapError .tile
    make resolution tilesize pad
  | _ => .error (.tile (.gridFieldCount text))

end Grid
end UtmTiles
