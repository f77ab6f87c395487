import UtmTiles.Decimal.Printer
import UtmTiles.Json.Basic

/-!
# Writing JSON

`compact` writes a value without white space, `pretty` one item to a line with two blanks of
indentation for each level. A number that is not finite is written as `null`.
-/

namespace UtmTiles
namespace Json

def hexDigit (n : Nat) : Char := "0123456789abcdef".toList.getD n '0'

def escaped (c : Char) : List Char :=
  match c with
  | '"' => ['\\', '"']
  | '\\' => ['\\', '\\']
  | '\n' => ['\\', 'n']
  | '\r' => ['\\', 'r']
  | '\t' => ['\\', 't']
  | '\x08' => ['\\', 'b']
  | '\x0c' => ['\\', 'f']
  | c =>
    if c.toNat < 0x20 then ['\\', 'u', '0', '0', hexDigit (c.toNat / 16), hexDigit (c.toNat % 16)]
    else [c]

def quoted (s : String) : String := String.ofList ('"' :: s.toList.flatMap escaped ++ ['"'])

def floatText (x : Float) : String := if x.isFinite then Decimal.render .json x else "null"

mutual

def compact : Json → String
  | null => "null"
  | bool b => if b then "true" else "false"
  | int n => toString n
  | float x => floatText x
  | string s => quoted s
  | array items => "[" ++ ",".intercalate (compactItems items) ++ "]"
  | object members => "\x7b" ++ ",".intercalate (compactMembers members) ++ "\x7d"

def compactItems : List Json → List String
  | [] => []
  | v :: rest => compact v :: compactItems rest

def compactMembers : List (String × Json) → List String
  | [] => []
  | (name, v) :: rest => (quoted name ++ ":" ++ compact v) :: compactMembers rest

end

/-- The start of a line at a level of nesting. -/
def indentation (level : Nat) : String := String.ofList ('\n' :: List.replicate (2 * level) ' ')

mutual

/-- A value that starts somewhere in a line and goes on in lines of a deeper level. -/
def prettyAt (level : Nat) : Json → String
  | null => "null"
  | bool b => if b then "true" else "false"
  | int n => toString n
  | float x => floatText x
  | string s => quoted s
  | array items =>
    if items.isEmpty then "[]"
    else "[" ++ ",".intercalate (prettyItems (level + 1) items) ++ indentation level ++ "]"
  | object members =>
    if members.isEmpty then "\x7b\x7d"
    else "\x7b" ++ ",".intercalate (prettyMembers (level + 1) members) ++ indentation level ++ "\x7d"

/-- The texts of items, each on lines of its own. -/
def prettyItems (level : Nat) : List Json → List String
  | [] => []
  | v :: rest => (indentation level ++ prettyAt level v) :: prettyItems level rest

/-- The texts of members, each on lines of its own. -/
def prettyMembers (level : Nat) : List (String × Json) → List String
  | [] => []
  | (name, v) :: rest =>
    (indentation level ++ quoted name ++ ": " ++ prettyAt level v) :: prettyMembers level rest

end

def pretty (v : Json) : String := prettyAt 0 v

end Json
end UtmTiles
