import UtmTiles.Decimal.Reader
import UtmTiles.Error
import UtmTiles.Text.Fields

/-!
# Reading tile keys

A key has exactly six fields between colons. Five of them are whole numbers, `-?[0-9]+`, each with
a range of its own; the resolution is a decimal without sign and exponent, `[0-9]+(\.[0-9]+)?`,
whose nearest double is finite and positive. Of several faulty fields the first one is reported.
-/

namespace UtmTiles
namespace TileKey

open Decimal (areDigits ofDigits)

def readInt (field : KeyField) (cs : List Char) : Except (TileFault Float) Int :=
  let negative := cs.head? == some '-'
  let digits := if negative then cs.tail else cs
  if !areDigits digits then .error (.notInteger field (String.ofList cs))
  else
    let n : Int := if negative then -(ofDigits digits : Int) else ofDigits digits
    if n < Binary64.minIndex ∨ Binary64.maxIndex < n then
      .error (.outOfRange field (String.ofList cs))
    else .ok n

def maxPixels : Nat := UInt32.size - 1

def readTilesize (cs : List Char) : Except (TileFault Float) Nat := do
  let n ← readInt .tilesize cs
  if n ≤ 0 ∨ (maxPixels : Int) < n then .error (.tilesizeOutside n) else .ok n.toNat

def readPad (cs : List Char) : Except (TileFault Float) Nat := do
  let n ← readInt .pad cs
  if n < 0 ∨ (maxPixels : Int) < n then .error (.padOutside n) else .ok n.toNat

/-- The digits before and after the point of an unsigned decimal. -/
def decimal? (cs : List Char) : Option (List Char × List Char) :=
  match Text.fields '.' cs with
  | [whole] => if areDigits whole then some (whole, []) else none
  | [whole, fraction] => if areDigits whole && areDigits fraction then some (whole, fraction) else none
  | _ => none

/-- A resolution: a finite positive double. -/
def readResolution (cs : List Char) : Except (TileFault Float) Float :=
  match decimal? cs with
  | none => .error (.resolutionNotDecimal (String.ofList cs))
  | some (whole, fraction) =>
    let x := Decimal.nearest false (ofDigits (whole ++ fraction)) (-fraction.length)
    if x.isFinite ∧ 0.0 < x then .ok x else .error (.resolutionTextNotPositive (String.ofList cs))

def readZone (cs : List Char) : Except (TileFault Float) Nat := do
  let n ← readInt .zone cs
  if n < 1 ∨ 60 < n then .error (.keyZoneOutside n) else .ok n.toNat

/-- The key that a text is the written form of. -/
def read (text : String) : Except (TileFault Float) (TileKey Float) :=
  match Text.fields ':' text.toList with
  | [tilesize, pad, resolution, zone, ti, tj] => do
    let tilesize ← readTilesize tilesize
    let pad ← readPad pad
    let resolution ← readResolution resolution
    let zone ← readZone zone
    let ti ← readInt .ti ti
    let tj ← readInt .tj tj
    return { tilesize, pad, resolution, zone, ti, tj }
  | fields => .error (.fieldCount text fields.length 6)

end TileKey
end UtmTiles
