import UtmTiles.Decimal.Shortest

/-!
# Writing doubles

Every writer takes the shortest decimal of a double. They differ in a few decisions, which a `Style`
holds: which of two decimals is taken, which numbers are written positionally, what marks a whole
number, and what an exponent looks like.

* `plain` is the style of messages and keys: always positional, whole numbers bare.
* `marked` is the style of configuration texts and descriptions: whole numbers end in `.0`, very
  large and very small ones have an exponent.
* `json` is the style of JSON documents.
-/

namespace UtmTiles
namespace Decimal

open Binary64

/-- The decisions of a number format. -/
structure Style where
  /-- Which of two equally near decimals is taken. -/
  tie : Tie
  /-- The powers of ten of the leading digit for which a number is written positionally. -/
  positional : Int → Bool
  /-- What follows the digits of a whole number in positional notation. -/
  whole : String
  /-- How a power of ten is written after the digits. -/
  power : Int → String

/-- Messages and keys: no exponents, and nothing after a whole number. -/
def Style.plain : Style := ⟨.upper, fun _ => true, "", fun _ => ""⟩

/-- Configuration texts and descriptions: an exponent below `1e-4` and from `1e16` on. -/
def Style.marked : Style := ⟨.upper, fun e => -4 ≤ e && e < 16, ".0", fun e => s!"e{e}"⟩

/-- JSON: an exponent below `1e-5` and from `1e16` on, with the sign of either kind. -/
def Style.json : Style :=
  ⟨.even, fun e => -5 ≤ e && e < 16, ".0", fun e => if e < 0 then s!"e{e}" else s!"e+{e}"⟩

def zeros (n : Nat) : String := String.ofList (List.replicate n '0')

/-- A decimal with all places written out. -/
def positional (style : Style) (d : Decimal) : String :=
  let digits := toString d.digits
  let places : Int := digits.length + d.exponent
  if 0 ≤ d.exponent then digits ++ zeros d.exponent.toNat ++ style.whole
  else if places ≤ 0 then "0." ++ zeros (-places).toNat ++ digits
  else
    String.ofList (digits.toList.take places.toNat) ++ "." ++
      String.ofList (digits.toList.drop places.toNat)

/-- A decimal with one digit before the point, and a power of ten. -/
def exponential (style : Style) (d : Decimal) : String :=
  let digits := (toString d.digits).toList
  let power : Int := digits.length - 1 + d.exponent
  match digits with
  | [] => ""
  | [first] => String.ofList [first] ++ style.power power
  | first :: rest => String.ofList (first :: '.' :: rest) ++ style.power power

/-- A positive decimal in the given style. -/
def toText (style : Style) (d : Decimal) : String :=
  if style.positional ((toString d.digits).length - 1 + d.exponent) then d.positional style
  else d.exponential style

def render (style : Style) (x : Float) : String :=
  match parts? x with
  | none => if x.isNaN then "NaN" else if x < 0.0 then "-inf" else "inf"
  | some p =>
    let text := if p.mantissa = 0 then "0" ++ style.whole else (shortest style.tie p).toText style
    if p.negative then "-" ++ text else text

def plain (x : Float) : String := render .plain x

/-- A double as it stands in configuration texts. -/
def marked (x : Float) : String := render .marked x

end Decimal
end UtmTiles
