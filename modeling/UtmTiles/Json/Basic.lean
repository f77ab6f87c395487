/-!
# JSON values

A number is a whole number or a double: the two are kept apart, because a reader of whole numbers
refuses a double even when it has no fraction. Whole numbers reach from `-2 ^ 63` to `2 ^ 64 - 1`.

The members of an object are in the order in which they are written out.
-/

namespace UtmTiles

inductive Json where
  | null
  | bool (b : Bool)
  | int (n : Int)
  | float (x : Float)
  | string (s : String)
  | array (items : List Json)
  | object (members : List (String × Json))
  deriving Repr, Inhabited

namespace Json

/-- Puts a member in its place among members sorted by name; a member of that name gives way. -/
def insertMember (name : String) (value : Json) : List (String × Json) → List (String × Json)
  | [] => [(name, value)]
  | (n, v) :: rest =>
    if name < n then (name, value) :: (n, v) :: rest
    else if name = n then (name, value) :: rest
    else (n, v) :: insertMember name value rest

def member? (name : String) : Json → Option Json
  | object members => members.lookup name
  | _ => none

def float? : Json → Option Float
  | int n => some (Float.ofInt n)
  | float x => some x
  | _ => none

def string? : Json → Option String
  | string s => some s
  | _ => none

def array? : Json → Option (List Json)
  | array items => some items
  | _ => none

/-- The value as a whole number of a range. -/
def intIn? (low high : Int) : Json → Option Int
  | int n => if low ≤ n ∧ n ≤ high then some n else none
  | _ => none

end Json
end UtmTiles
