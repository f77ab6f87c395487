import UtmTiles.Config.Basic
import UtmTiles.Scalar.Binary64

/-!
# Configurations from TOML values

The tables of a configuration are given as tables, or as arrays of their values in order. Whole
numbers are accepted for doubles. Keys without a meaning are left alone. Values are looked at in the
order of their keys, and missing ones are reported after that.
-/

namespace UtmTiles
namespace Config

open Toml (Value)

abbrev Decoder (β : Type) := Value → Except ValueFault β

def double : Decoder Float
  | .float x => .ok x
  | .integer n => .ok (Float.ofInt n)
  | v => .error (.wrongKind v .double)

def count (bits : Nat) : Decoder Nat
  | .integer n =>
    if 0 ≤ n ∧ n < Nat.pow 2 bits then .ok n.toNat else .error (.outOfRange n (.count bits))
  | v => .error (.wrongKind v (.count bits))

def boolean : Decoder Bool
  | .boolean b => .ok b
  | v => .error (.wrongKind v .boolean)

def string : Decoder String
  | .string s => .ok s
  | .date text => .ok text
  | v => .error (.wrongKind v .string)

/-- The value of a key, if the table has it. -/
def entry? {β : Type} (decode : Decoder β) (key : String) (entries : List (String × Value)) :
    Except ValueFault (Option β) :=
  match entries.lookup key with
  | some v => (decode v).map some
  | none => .ok none

def required {β : Type} (field : String) : Option β → Except ValueFault β
  | some b => .ok b
  | none => .error (.missing field)

def gridOfValue : Decoder GridConfig
  | .table entries => do
    let pad ← entry? (count 32) "pad" entries
    let resolution ← entry? double "resolution" entries
    let tilesize ← entry? (count 32) "tilesize" entries
    let resolution ← required "resolution" resolution
    let tilesize ← required "tilesize" tilesize
    return { resolution, tilesize, pad := pad.getD 0 }
  | .array [] => .error (.tooShort 0 .grid)
  | .array [resolution] => do
    let _ ← double resolution
    .error (.tooShort 1 .grid)
  | .array (resolution :: tilesize :: rest) => do
    let resolution ← double resolution
    let tilesize ← count 32 tilesize
    match rest with
    | [] => return { resolution, tilesize, pad := 0 }
    | pad :: more =>
      let pad ← count 32 pad
      if more.isEmpty then return { resolution, tilesize, pad }
      else .error (.tooLong (rest.length + 2))
  | v => .error (.wrongKind v (.table .grid))

def tilingOfValue : Decoder TilingConfig
  | .table entries => do
    let keysOnly ← entry? boolean "keys_only" entries
    let maxTiles ← entry? (count 64) "max_tiles" entries
    let shape ← entry? string "shape" entries
    return { shape, keysOnly := keysOnly.getD false, maxTiles }
  | .array items => do
    match items with
    | [] => .error (.tooShort 0 .tiling)
    | [shape] =>
      let _ ← string shape
      .error (.tooShort 2 .tiling)
    | [shape, keysOnly] =>
      let _ ← string shape
      let _ ← boolean keysOnly
      .error (.tooShort 2 .tiling)
    | shape :: keysOnly :: maxTiles :: more =>
      let shape ← string shape
      let keysOnly ← boolean keysOnly
      let maxTiles ← count 64 maxTiles
      if more.isEmpty then return { shape := some shape, keysOnly, maxTiles := some maxTiles }
      else .error (.tooLong items.length)
  | v => .error (.wrongKind v (.table .tiling))

/-- The configuration that a document holds. -/
def ofValue (v : Value) : Except ValueFault Config := do
  let entries := match v with
    | .table entries => entries
    | _ => []
  let grid ← entry? gridOfValue "grid" entries
  let tiling ← entry? tilingOfValue "tiling" entries
  let grid ← required "grid" grid
  return { grid, tiling := tiling.getD .plain }

end Config
end UtmTiles
