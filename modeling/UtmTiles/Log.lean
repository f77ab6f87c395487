/-!
# Log entries

What the program tells about its work. An entry belongs to a part of the program, so that entries of
a part can be chosen by its name (`CommandLine.Filter`).
-/

namespace UtmTiles
namespace Log

/-- How important an entry is. -/
inductive Level where
  | error | warning | info
  deriving DecidableEq, Repr

def Level.name : Level → String
  | error => "ERROR"
  | warning => "WARN"
  | info => "INFO"

/-- Parts of the program. -/
inductive Part where
  | program | arguments | service | shapeSource | grid
  deriving DecidableEq, Repr

/-- The name by which entries of a part are chosen. -/
def Part.name : Part → String
  | program => "utm_tiler"
  | arguments => "utm_tiler_service::args"
  | service => "utm_tiler_service::tiling_service"
  | shapeSource => "utm_tiler_core::core::shape_source"
  | grid => "utm_grid::grid"

/-- An entry. -/
structure Entry where
  level : Level
  part : Part
  message : String
  deriving DecidableEq, Repr

/-- An entry in a line, but for the time. -/
def Entry.line (e : Entry) : String := e.level.name ++ " " ++ e.message

end Log
end UtmTiles
