import UtmTiles.Decimal.Reader
import UtmTiles.Plane.Basic
import UtmTiles.Scalar.Binary64
import UtmTiles.Text.Blank
import UtmTiles.Text.Fields

/-!
# Lists of points

A list of points is a text with numbers between commas, two for each point: `x1,y1,x2,y2`. White
space around a number does not count.
-/

namespace UtmTiles
namespace Points

/-- What is wrong with a list of points. -/
inductive Fault where
  /-- The text between two commas is no number. -/
  | notNumber (text : String)
  | oddCount (count : Nat)
  deriving DecidableEq, Repr

def Fault.message : Fault → String
  | notNumber text => s!"Invalid coordinate '{text}'"
  | oddCount count => s!"Points need pairs of coordinates, got {count} values"

/-- A number with white space around it. -/
def coordinate (field : List Char) : Except Fault Float :=
  match Decimal.read? (String.ofList (Text.trim field)) with
  | some x => .ok x
  | none => .error (.notNumber (String.ofList field))

def pairs : List Float → List (Point Float)
  | x :: y :: rest => ⟨x, y⟩ :: pairs rest
  | _ => []

def read (text : String) : Except Fault (List (Point Float)) := do
  let coordinates ← (Text.fields ',' text.toList).mapM coordinate
  if coordinates.length % 2 ≠ 0 then .error (.oddCount coordinates.length)
  else return pairs coordinates

end Points
end UtmTiles
