import UtmTiles.Coverage.Shape
import UtmTiles.Log
import UtmTiles.Service.Basic

/-!
# Covering a shape

The tiles of a coverage are numbered. With several nodes, the tile with number `i` is put out by the
node `i mod nodes`. A limit on the number of tiles holds for each node: once it has put out that many,
it stops at the next tile.

An estimate that overflows ends the work before the first tile.
-/

namespace UtmTiles

/-- How far a node has come. -/
structure Selection (α : Type) where
  /-- Tiles gone through. -/
  seen : Nat
  /-- The tiles put out, in reverse order. -/
  chosen : List α
  /-- Their number. -/
  written : Nat
  /-- The limit has been met. -/
  stopped : Bool

namespace Selection

variable {α : Type}

def start : Selection α := ⟨0, [], 0, false⟩

/-- Goes through the rest of a sequence. -/
def run (nodes nodeno : Nat) (limit : Option Nat) : Sequence α → Selection α → Selection α
  | .nil, s => s
  | .cons a tail, s =>
    if limit.any (· ≤ s.written) then { s with stopped := true }
    else if s.seen % nodes = nodeno then
      run nodes nodeno limit (tail ())
        { s with seen := s.seen + 1, chosen := a :: s.chosen, written := s.written + 1 }
    else run nodes nodeno limit (tail ()) { s with seen := s.seen + 1 }

end Selection

/-- Numbers about a run. -/
structure CoverStats where
  /-- Tiles gone through, with those of other nodes. -/
  tiles : Nat
  /-- Tiles put out by this node. -/
  written : Nat
  /-- The estimate for the shape. -/
  estimate : Nat
  deriving DecidableEq, Repr

/-- What covering a shape gives. -/
structure CoverRun where
  stats : CoverStats
  lines : List String
  log : List Log.Entry

namespace Service

/-- Entries before the first tile is put out. -/
def startLog (s : Service) (estimate : Nat) : List Log.Entry :=
  let grid := s.grid.toText
  ⟨.info, .service, s!"Covering shape with grid {grid}, estimated {estimate} tiles"⟩ ::
    (if Coverage.largeCount < estimate then
      [⟨.warning, .grid, s!"Shape is covered by approximately {estimate} tiles of grid {grid}"⟩]
    else [])

/-- Entries after the last tile has been put out. -/
def endLog (s : Service) (run : Selection (Tile Float)) : List Log.Entry :=
  (if run.stopped then
    [⟨.warning, .service, s!"Stopping after {s.tiling.maxTiles.getD 0} tiles"⟩]
  else []) ++ [⟨.info, .service, s!"{run.written} of {run.seen} tiles written"⟩]

/-- Covers a shape, as one of several nodes. -/
def cover (s : Service) (shape : Shape) (nodes nodeno : Option Nat) :
    Result ServiceFault CoverRun := do
  let nodes := max (nodes.getD 1) 1
  let nodeno := nodeno.getD 0
  if nodes ≤ nodeno then .error (.nodeNumber nodeno nodes)
  else
    let parts ← .ofExcept (shape.normalize.mapError .tiles)
    let estimate ← (s.grid.estimateOfShape (.ofPolygons parts)).mapError .tiles
    let tiles ← (s.grid.tilesOfShape (.ofPolygons parts)).mapError .tiles
    let run := Selection.start.run nodes nodeno s.tiling.maxTiles tiles
    return {
      stats := ⟨run.seen, run.written, estimate⟩
      lines := run.chosen.reverse.map s.line
      log := s.startLog estimate ++ s.endLog run }

end Service
end UtmTiles
