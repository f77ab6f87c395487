import UtmTiles.Config.Basic
import UtmTiles.Grid.Basic

/-!
# Writing configurations

A template to start from, with the usual values and comments, and the configuration of a grid and
settings in force.
-/

namespace UtmTiles
namespace Config

def heading : String := "# utm-tiler configuration\n"

def gridTemplate : String :=
  "\n[grid]\n" ++
  "resolution = 10.0  # Pixel size in meters\n" ++
  "tilesize = 2048    # Tile width and height in pixels\n" ++
  "pad = 16           # Overlap pixels on each side\n"

def tilingTemplate : String :=
  "\n[tiling]\n" ++
  "# Default area of interest (GeoJSON)\n" ++
  "#shape = \"aoi.geojson\"\n" ++
  "# Output tile keys instead of tile records\n" ++
  "keys_only = false\n" ++
  "# Stop after this number of tiles\n" ++
  "#max_tiles = 100000\n"

def template : String := heading ++ gridTemplate ++ tilingTemplate

def gridText (g : Grid Float) : String :=
  s!"\n[grid]\nresolution = {Decimal.marked g.resolution}\ntilesize = {g.tilesize}\npad = {g.pad}\n"

def tilingText (t : TilingConfig) : String :=
  let shape := match t.shape with
    | some shape => "shape = " ++ Text.quoted shape ++ "\n"
    | none => ""
  let keysOnly := if t.keysOnly then "keys_only = true\n" else "keys_only = false\n"
  let maxTiles := match t.maxTiles with
    | some n => s!"max_tiles = {n}\n"
    | none => "#max_tiles = 100000\n"
  "\n[tiling]\n" ++ shape ++ keysOnly ++ maxTiles

/-- The configuration of a grid and settings. -/
def text (g : Grid Float) (t : TilingConfig) : String := heading ++ gridText g ++ tilingText t

def usual : Config := ⟨⟨10.0, 2048, 16⟩, .plain⟩

end Config
end UtmTiles
