import UtmTiles.Decimal.Printer

/-!
# Tile keys

A tile key names a tile by the three numbers of its grid and the three of its place:
`tilesize:pad:resolution:zone:ti:tj`, for instance `2048:16:30.0:15:3:80`. A grid key is the first
half of it.

The resolution is written with the fewest digits that read back as the same double, all places
written out, and at least one digit after the point. The zone has two digits at least.
-/

namespace UtmTiles

/-- What a tile key says. -/
structure TileKey (α : Type) where
  /-- Width and height of the tile in pixels, without padding. -/
  tilesize : Nat
  /-- Extra pixels on every side. -/
  pad : Nat
  /-- Size of a pixel in meters. -/
  resolution : α
  zone : Nat
  /-- Tiles eastwards from the central meridian. -/
  ti : Int
  /-- Tiles northwards from the equator. -/
  tj : Int
  deriving DecidableEq, Repr

namespace TileKey

def resolutionText (resolution : Float) : String :=
  let text := Decimal.plain resolution
  if text.toList.contains '.' then text else text ++ ".0"

def zoneText (zone : Nat) : String :=
  if zone < 10 then "0" ++ toString zone else toString zone

def gridText (tilesize pad : Nat) (resolution : Float) : String :=
  s!"{tilesize}:{pad}:{resolutionText resolution}"

def toText (key : TileKey Float) : String :=
  s!"{gridText key.tilesize key.pad key.resolution}:{zoneText key.zone}:{key.ti}:{key.tj}"

end TileKey
end UtmTiles
