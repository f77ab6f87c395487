import UtmTiles.Coverage.Estimate
import UtmTiles.Coverage.Sweep
import UtmTiles.Result
import UtmTiles.Shape.Basic

/-!
# Coverage of shapes

Tiles and estimates of a shape in any form. A shape that does not come down to polygons on the globe
has neither. Before there are any tiles their number is estimated, so without an estimate there are no
tiles.
-/

namespace UtmTiles
namespace Grid

/-- An approximation of the number of tiles that cover a shape. -/
def estimateOfShape (g : Grid Float) (shape : Shape) : Result (Error Float) Nat := do
  let parts ← .ofExcept shape.normalize
  .ofOption (g.estimate? parts)

def tilesOfShape (g : Grid Float) (shape : Shape) :
    Result (Error Float) (Sequence (Tile Float)) := do
  let parts ← .ofExcept shape.normalize
  let _ ← .ofOption (g.estimate? parts)
  return g.coverage parts

end Grid
end UtmTiles
