import UtmTiles.Decimal.Digits

/-!
# Reading doubles

A decimal literal is an optional sign, digits with at most one point among or around them, and an
optional exponent. It stands for the double nearest to its value. `inf`, `infinity` and `nan` are
read in any mixture of cases. There is no white space in a literal.
-/

namespace UtmTiles
namespace Decimal

/-- An exponent beyond which a larger one makes no difference: ten to this power is beyond all
doubles, and so small a number is nearest to zero. -/
def exponentLimit : Nat := 400

/-- The double nearest to `± digits * 10 ^ exponent`. -/
def nearest (negative : Bool) (digits : Nat) (exponent : Int) : Float :=
  let x := match exponent with
    | .ofNat k => Float.ofScientific digits false (min k exponentLimit)
    | .negSucc k => Float.ofScientific digits true (min (k + 1) (exponentLimit + digits.log2))
  if negative then -x else x

/-- An optional sign in front of a text, as whether it is a minus, and what follows it. -/
def splitSign : List Char → Bool × List Char
  | '-' :: cs => (true, cs)
  | '+' :: cs => (false, cs)
  | cs => (false, cs)

/-- The digits before and after an optional point, and what follows them; there is at least one
digit. -/
def mantissa? (cs : List Char) : Option (List Char × List Char × List Char) :=
  let (whole, rest) := spanDigits cs
  let (fraction, rest) := match rest with
    | '.' :: rest => spanDigits rest
    | rest => ([], rest)
  if whole.isEmpty && fraction.isEmpty then none else some (whole, fraction, rest)

/-- An exponent that makes up a whole text; an empty text is the exponent 0. -/
def exponent? : List Char → Option Int
  | [] => some 0
  | c :: cs =>
    if c = 'e' ∨ c = 'E' then
      let (negative, digits) := splitSign cs
      if areDigits digits then
        let n : Int := ofDigits digits
        some (if negative then -n else n)
      else none
    else none

/-- The number a text without sign stands for. -/
def unsigned? (negative : Bool) (cs : List Char) : Option Float :=
  let lower := String.ofList (cs.map Char.toLower)
  if lower = "inf" ∨ lower = "infinity" then
    some (if negative then -1.0 / 0.0 else 1.0 / 0.0)
  else if lower = "nan" then some (0.0 / 0.0)
  else do
    let (whole, fraction, rest) ← mantissa? cs
    let e ← exponent? rest
    return nearest negative (ofDigits (whole ++ fraction)) (e - fraction.length)

/-- The double a literal stands for, if the text is a literal. -/
def read? (text : String) : Option Float :=
  let (negative, rest) := splitSign text.toList
  unsigned? negative rest

end Decimal
end UtmTiles
