import UtmTiles.Error
import UtmTiles.Template.Basic
import UtmTiles.Toml.Basic

/-!
# Configurations

A configuration fixes a grid and how tiles are put out. It may be incomplete or wrong in several
ways; `ConfigFault` lists them.
-/

namespace UtmTiles

/-- The numbers of a grid, which may not make sense together. -/
structure GridConfig where
  resolution : Float
  tilesize : Nat
  pad : Nat
  deriving Repr

/-- How tiles are put out. -/
structure TilingConfig where
  /-- Where the default area of interest comes from. -/
  shape : Option String
  /-- Keys are put out instead of records. -/
  keysOnly : Bool
  /-- The largest number of tiles. -/
  maxTiles : Option Nat
  deriving DecidableEq, Repr

/-- Records of all tiles, and no default area. -/
def TilingConfig.plain : TilingConfig := ⟨none, false, none⟩

/-- A configuration. -/
structure Config where
  grid : GridConfig
  tiling : TilingConfig
  deriving Repr

/-- A table of a configuration. -/
inductive ConfigTable where
  | grid | tiling
  deriving DecidableEq, Repr

def ConfigTable.describe : ConfigTable → String
  | grid => "struct GridCfg"
  | tiling => "struct TilingCfg"

/-- What a value of a configuration has to be. -/
inductive ConfigKind where
  | double
  /-- A whole number of a number of bits. -/
  | count (bits : Nat)
  | boolean
  | string
  | table (table : ConfigTable)
  deriving DecidableEq, Repr

def ConfigKind.describe : ConfigKind → String
  | double => "f64"
  | count bits => s!"u{bits}"
  | boolean => "a boolean"
  | string => "a string"
  | table t => t.describe

/-- A value that does not fit. -/
inductive ValueFault where
  | wrongKind (found : Toml.Value) (expected : ConfigKind)
  | outOfRange (n : Int) (expected : ConfigKind)
  | missing (field : String)
  /-- A table given as an array has too few values. -/
  | tooShort (length : Nat) (table : ConfigTable)
  /-- A table given as an array has too many values. -/
  | tooLong (length : Nat)
  deriving Repr

def Toml.Value.describe : Toml.Value → String
  | .string s => "string " ++ Text.quoted s
  | .integer n => s!"integer `{n}`"
  | .float x =>
    let text := if x.isFinite then TileKey.resolutionText x else Decimal.plain x
    s!"floating point `{text}`"
  | .boolean b => if b then "boolean `true`" else "boolean `false`"
  | .date text => "string " ++ Text.quoted text
  | .array _ => "sequence"
  | .table _ => "map"

def ValueFault.message : ValueFault → String
  | wrongKind found expected => s!"invalid type: {found.describe}, expected {expected.describe}"
  | outOfRange n expected => s!"invalid value: integer `{n}`, expected {expected.describe}"
  | missing field => s!"missing field `{field}`"
  | tooShort length table =>
    s!"invalid length {length}, expected {table.describe} with 3 elements"
  | tooLong length => s!"invalid length {length}, expected fewer elements in array"

/-- Why a text or a file gives no configuration. -/
inductive ConfigFault where
  /-- The text has a variable in a syntax that is no longer used. -/
  | oldVariable
  | template (fault : Template.Fault)
  | document (path : String) (fault : Toml.Fault)
  | content (path : String) (fault : ValueFault)
  | noFile
  | unreadable (reason : String)
  deriving Repr

/-- The wording of a fault in a template. -/
def Template.Fault.message : Template.Fault → String
  | .malformed => "Failed to parse the template"
  | .undefined => "Variable not found in context while rendering"

def ConfigFault.message : ConfigFault → String
  | oldVariable =>
    "Replace old environment variable syntax $\x7bVARNAME\x7d with `\x7b\x7benv.VARNAME\x7d\x7d`"
  | template fault => "Template error: " ++ fault.message
  | document path fault => path ++ " - " ++ fault.message
  | content path fault => path ++ " - " ++ fault.message
  | noFile => "Could not find config file!"
  | unreadable reason => s!"Error while reading config: [{reason}]"

end UtmTiles
