import UtmTiles.Config.Reader
import UtmTiles.Config.Writer
import UtmTiles.Service.Points
import UtmTiles.Shape.Basic
import UtmTiles.Tile.Record
import UtmTiles.Tile.Subdivision

/-!
# The tiling service

A service looks up tiles and their records on a grid, with settings for its output.
-/

namespace UtmTiles

/-- A grid with settings for the output of tiles. -/
structure Service where
  grid : Grid Float
  tiling : TilingConfig
  deriving Repr

/-- Why the service gives no answer. -/
inductive ServiceFault where
  | tiles (error : Error Float)
  /-- The grid of a configuration does not make sense. -/
  | invalidGrid (error : Error Float)
  | config (fault : ConfigFault)
  | points (fault : Points.Fault)
  | noShape
  | noShapeFile (source : String)
  | unreadableShape (reason : String)
  | unreadableInput (reason : String)
  | nodeNumber (nodeno nodes : Nat)
  deriving Repr

def ServiceFault.message : ServiceFault → String
  | tiles error => error.message
  | invalidGrid error => "Invalid grid definition: " ++ error.message
  | config fault => fault.message
  | points fault => fault.message
  | noShape => "Either 'shape' or a [tiling] shape in the configuration is required"
  | noShapeFile source => s!"Could not find shape file '{source}'!"
  | unreadableShape reason => s!"Error while reading shape: [{reason}]"
  | unreadableInput reason => s!"Error while reading shape from stdin: [{reason}]"
  | nodeNumber nodeno nodes =>
    s!"Node number {nodeno} must be lower than the number of nodes {nodes}"

namespace Service

/-- The service of a grid with the plain settings. -/
def ofGrid (g : Grid Float) : Service := ⟨g, .plain⟩

/-- The service that a configuration describes. -/
def ofConfig (c : Config) : Except ServiceFault Service := do
  let grid ← (Grid.make c.grid.resolution c.grid.tilesize c.grid.pad).mapError .invalidGrid
  return ⟨grid, c.tiling⟩

def configText (s : Service) : String := Config.text s.grid s.tiling

/-! ### Lookups -/

/-- The record of the tile that holds a position. -/
def recordAt (s : Service) (p : Point Float) : Except ServiceFault Record := do
  let tile ← (s.grid.tileAt p.x p.y).mapError .tiles
  return tile.record

/-- The records of the tiles that hold some positions. -/
def recordsAt (s : Service) (ps : List (Point Float)) : Except ServiceFault (List Record) :=
  ps.mapM s.recordAt

/-- The record of the tile that a text names. -/
def recordOf (key : String) : Except ServiceFault Record := do
  let tile ← (Tile.ofText key).mapError .tiles
  return tile.record

/-- The subtiles of the tile that a text names. -/
def subtilesOf (key : String) (ratio : Nat) (resolution : Option Float) (pad : Option Nat) :
    Except ServiceFault (Subtiles Float) := do
  let tile ← (Tile.ofText key).mapError .tiles
  (tile.subtiles ratio resolution pad).mapError .tiles

def line (s : Service) (t : Tile Float) : String :=
  if s.tiling.keysOnly then t.toText else t.record.line

end Service
end UtmTiles
