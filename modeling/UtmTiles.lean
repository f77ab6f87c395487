import UtmTiles.CommandLine.Run
import UtmTiles.Config.Writer
import UtmTiles.Coverage.Estimate
import UtmTiles.Coverage.Shape
import UtmTiles.Coverage.Sweep
import UtmTiles.Main
import UtmTiles.Proofs.Tile.Span
import UtmTiles.Proofs.Coverage.Lookup
import UtmTiles.Proofs.Coverage.Indices
import UtmTiles.Proofs.Coverage.Search
import UtmTiles.Proofs.Coverage.Sweep
import UtmTiles.Proofs.Coverage.Visits
import UtmTiles.Proofs.Coverage.Walk
import UtmTiles.Proofs.Coverage.Division
import UtmTiles.Proofs.Coverage.Estimate
import UtmTiles.Proofs.Config.Refusal
import UtmTiles.Proofs.Config.RoundTrip
import UtmTiles.Proofs.Service.Cover
import UtmTiles.Proofs.Service.Limit
import UtmTiles.Proofs.Service.Points
import UtmTiles.Proofs.Service.Stream
import UtmTiles.Proofs.Shape.Forms
import UtmTiles.Proofs.Shape.Globe
import UtmTiles.Proofs.Tile.Cell
import UtmTiles.Proofs.Tile.Nesting
import UtmTiles.Proofs.Tile.Stages
import UtmTiles.Proofs.Tile.Mosaic
import UtmTiles.Proofs.Tile.PixelCenter
import UtmTiles.Proofs.Tile.Record
import UtmTiles.Proofs.Tile.Pixel
import UtmTiles.Proofs.Utm.PoleRing
import UtmTiles.Proofs.Utm.Antimeridian
import UtmTiles.Proofs.Utm.Quadrant
import UtmTiles.Service.Cover
import UtmTiles.Service.Points
import UtmTiles.Service.Source
import UtmTiles.Shape.Description
import UtmTiles.Text.Blank
import UtmTiles.Tile.Pixel
import UtmTiles.Tile.Record
import UtmTiles.Tile.Subdivision
