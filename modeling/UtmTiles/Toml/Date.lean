import UtmTiles.Decimal.Digits

/-!
# Dates and times

A date, a time of day, or a date with a time of day, which may have an offset: `2020-02-30`,
`07:32:00.5`, `2020-02-30T07:32:00Z`. Days are not checked against months. The normal form has a
`T` before the time, a `Z` for no offset, and no zeros at the end of a fraction of at most nine
digits.
-/

namespace UtmTiles
namespace Toml
namespace Date

open Decimal (isDigit ofDigits)

/-- Some digits with a value of a range at the start of a text, and what follows them. -/
def field? (digits low high : Nat) (cs : List Char) : Option (List Char × List Char) :=
  let text := cs.take digits
  if text.length = digits ∧ text.all isDigit ∧ low ≤ ofDigits text ∧ ofDigits text ≤ high then
    some (text, cs.drop digits)
  else none

/-- What follows a character at the start of a text. -/
def mark? (c : Char) : List Char → Option (List Char)
  | d :: cs => if c = d then some cs else none
  | [] => none

def day? (cs : List Char) : Option (List Char × List Char) := do
  let (year, cs) ← field? 4 0 9999 cs
  let (month, cs) ← field? 2 1 12 (← mark? '-' cs)
  let (day, cs) ← field? 2 1 31 (← mark? '-' cs)
  return (year ++ '-' :: month ++ '-' :: day, cs)

/-- Digits after a point, if there is a point. -/
def fraction? : List Char → Option (List Char × List Char)
  | '.' :: cs =>
    let digits := cs.takeWhile isDigit
    if digits.isEmpty then none
    else
      let kept := ((digits.take 9).reverse.dropWhile (· = '0')).reverse
      some (if kept.isEmpty then [] else '.' :: kept, cs.dropWhile isDigit)
  | cs => some ([], cs)

def time? (cs : List Char) : Option (List Char × List Char) := do
  let (hour, cs) ← field? 2 0 24 cs
  let (minute, cs) ← field? 2 0 59 (← mark? ':' cs)
  let (second, cs) ← field? 2 0 59 (← mark? ':' cs)
  let (fraction, cs) ← fraction? cs
  return (hour ++ ':' :: minute ++ ':' :: second ++ fraction, cs)

/-- An offset that makes up a whole text; there may be none. -/
def offset? : List Char → Option (List Char)
  | [] => some []
  | ['Z'] | ['z'] => some ['Z']
  | sign :: cs => do
    if sign ≠ '+' ∧ sign ≠ '-' then none
    let (hour, cs) ← field? 2 0 99 cs
    let (minute, cs) ← field? 2 0 99 (← mark? ':' cs)
    if cs.isEmpty then some (sign :: hour ++ ':' :: minute) else none

/-- The normal form of a text that is a date or a time. -/
def normal? (cs : List Char) : Option (List Char) :=
  if (cs.drop 2).head? = some ':' then do
    let (time, cs) ← time? cs
    if cs.isEmpty then some time else none
  else do
    let (day, cs) ← day? cs
    match cs with
    | [] => some day
    | c :: cs =>
      if c = 'T' ∨ c = 't' ∨ c = ' ' then
        let (time, cs) ← time? cs
        let offset ← offset? cs
        some (day ++ 'T' :: time ++ offset)
      else none

end Date
end Toml
end UtmTiles
