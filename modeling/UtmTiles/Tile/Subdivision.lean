import UtmTiles.Tile.Basic

/-!
# Subdivision and reassignment

`Tile.subtiles` cuts a tile into `n * n` tiles of a finer grid, row by row from the upper left. The
subtiles are numbered and computed from their numbers, so that a subdivision takes no room however
many subtiles it has. `Tile.assign` gives a tile's cell other raster parameters.
-/

namespace UtmTiles

variable {α : Type} [Scalar α]

/-- The part of a tile's subdivision that is still to be gone through. -/
structure Subtiles (α : Type) where
  grid : Grid α
  zone : Nat
  /-- Indices of the upper left subtile. -/
  ti : Int
  tj : Int
  /-- Subtiles to a side. -/
  ratio : Nat
  /-- Number of the next subtile. -/
  index : Nat
  deriving DecidableEq, Repr

namespace Subtiles

def total (s : Subtiles α) : Nat := s.ratio * s.ratio

/-- Number of the subtiles that are still to come. -/
def remaining (s : Subtiles α) : Nat := s.total - s.index

def tileAt (s : Subtiles α) (index : Nat) : Tile α where
  grid := s.grid
  zone := s.zone
  ti := s.ti + (index % s.ratio : Nat)
  tj := s.tj - (index / s.ratio : Nat)

def next? (s : Subtiles α) : Option (Tile α × Subtiles α) :=
  if s.index < s.total then some (s.tileAt s.index, { s with index := s.index + 1 }) else none

def drop (s : Subtiles α) (n : Nat) : Subtiles α := { s with index := min (s.index + n) s.total }

def take (s : Subtiles α) (n : Nat) : List (Tile α) :=
  (List.range (min n s.remaining)).map fun k => s.tileAt (s.index + k)

/-- All subtiles that are still to come. -/
def toList (s : Subtiles α) : List (Tile α) := s.take s.remaining

/-- The last subtile that is still to come. -/
def last? (s : Subtiles α) : Option (Tile α) :=
  if s.index < s.total then some (s.tileAt (s.total - 1)) else none

end Subtiles

namespace Tile

/-- The relative difference up to which two lengths in meters count as equal. -/
def tolerance : α := 1.0e-9

/-- The grid of the subtiles: the resolution must be such that a whole number of pixels makes up a
subtile. -/
def subdividedGrid (t : Tile α) (ratio : Nat) (resolution : Option α) (pad : Option Nat) :
    Except (Error α) (Grid α) :=
  if ratio = 0 ∨ t.grid.tilesize % ratio ≠ 0 then
    .error (.tile (.unevenSubdivision ratio t.grid.tilesize))
  else
    let resolution := resolution.getD t.grid.resolution
    if ¬ Grid.IsResolution resolution then .error (.tile (.resolutionNotPositive resolution))
    else
      let pixels := t.grid.step / (Scalar.ofInt ratio * resolution)
      let whole := Scalar.round pixels
      if whole < 1.0 ∨ tolerance * whole < Scalar.abs (pixels - whole) then
        .error (.tile (.unevenResolution resolution (t.grid.step / Scalar.ofInt ratio)))
      else Grid.make resolution (Scalar.pixels whole) (pad.getD t.grid.pad)

/-- The smallest of `ratio` indices that an index falls into, if all of them are 64-bit numbers. -/
def scaledIndex? (index : Int) (ratio : Nat) : Option Int :=
  let low := index * ratio
  if Binary64.minIndex ≤ low ∧ low + (ratio - 1) ≤ Binary64.maxIndex then some low else none

def upperLeft (t : Tile α) (ratio : Nat) : Except (Error α) (Int × Int) :=
  match scaledIndex? t.ti ratio, scaledIndex? t.tj ratio with
  | some ti, some tj => .ok (ti, tj + (ratio - 1))
  | _, _ => .error (.tile (.indexOutOfRange t.key ratio))

def subtiles (t : Tile α) (ratio : Nat) (resolution : Option α) (pad : Option Nat) :
    Except (Error α) (Subtiles α) := do
  let grid ← t.subdividedGrid ratio resolution pad
  let (ti, tj) ← t.upperLeft ratio
  return { grid, zone := t.zone, ti, tj, ratio, index := 0 }

/-- One subtile, by row and column from the upper left. -/
def subtileAt (t : Tile α) (ratio row col : Nat) (resolution : Option α) (pad : Option Nat) :
    Except (Error α) (Tile α) := do
  let grid ← t.subdividedGrid ratio resolution pad
  if ratio ≤ row ∨ ratio ≤ col then .error (.pixel (.outsideSubdivision row col ratio))
  else
    let (ti, tj) ← t.upperLeft ratio
    return { grid, zone := t.zone, ti := ti + col, tj := tj - row }

/-- The same cell with other raster parameters. A new resolution together with a new tile size must
keep the size of the cell. -/
def assign (t : Tile α) (resolution : Option α) (tilesize pad : Option Nat) :
    Except (Error α) (Tile α) := do
  let grid ← Grid.make (resolution.getD t.grid.resolution) (tilesize.getD t.grid.tilesize)
    (pad.getD t.grid.pad)
  if resolution.isSome ∧ tilesize.isSome ∧
      tolerance * t.grid.step < Scalar.abs (grid.step - t.grid.step) then
    .error (.tile (.otherSpan grid.resolution grid.tilesize grid.step t.grid.step))
  else return { t with grid }

end Tile
end UtmTiles
