import UtmTiles.Decimal.Reader
import UtmTiles.Json.Basic

/-!
# Reading JSON

A text is cut into tokens, and the tokens drive a machine with a stack of open arrays and objects.
Both are plain recursion on the text.

* Of several members with one name the last one counts, and members are sorted by name.
* A whole number that does not fit into 64 bits is a double, and so is `-0`.
* A double is computed from its digits as far as they fit into 64 bits, by one multiplication or
  division with a power of ten. So a number of more than 15 digits may be off by one unit in the
  last place. A number beyond the largest double is refused.
* Arrays and objects may be nested to a depth below a limit.
-/

namespace UtmTiles
namespace Json

open Decimal (isDigit digitValue spanDigits areDigits ofDigits splitSign)

/-! ### Numbers -/

/-- Digits and a power of ten, as far as they are kept. -/
structure Scaled where
  digits : Nat
  exponent : Int
  deriving Repr

/-- The largest run of digits that is kept. -/
def maxDigits : Nat := UInt64.size - 1

/-- Digits before the point. When one does not fit, it and all later ones only count as places. -/
def takeWhole : List Char → Nat → Scaled
  | [], n => ⟨n, 0⟩
  | c :: cs, n =>
    let next := 10 * n + digitValue c
    if maxDigits < next then ⟨n, (c :: cs).length⟩ else takeWhole cs next

/-- Digits after the point. When one does not fit, it and all later ones are dropped. -/
def takeFraction : List Char → Scaled → Scaled
  | [], s => s
  | c :: cs, s =>
    let next := 10 * s.digits + digitValue c
    if maxDigits < next then s else takeFraction cs ⟨next, s.exponent - 1⟩

def powerOfTen (k : Nat) : Float := Float.ofScientific 1 false k

/-- A double times a power of ten, in steps that a double can hold; `none` beyond all doubles. -/
def scaleBy (x : Float) (exponent : Int) : Option Float :=
  if exponent < -308 then
    if x == 0.0 then some x else scaleBy (x / powerOfTen 308) (exponent + 308)
  else if exponent < 0 then some (x / powerOfTen exponent.natAbs)
  else if 308 < exponent then if x == 0.0 then some x else none
  else
    let y := x * powerOfTen exponent.natAbs
    if y.isFinite then some y else none
termination_by (-exponent).toNat

/-- The double that a scaled number stands for. -/
def Scaled.float? (negative : Bool) (s : Scaled) : Option Float := do
  let x ← scaleBy s.digits.toUInt64.toFloat s.exponent
  return if negative then -x else x

/-- A number that has neither point nor exponent. -/
def wholeNumber? (negative : Bool) (s : Scaled) : Option Json :=
  if s.exponent = 0 then
    if !negative then some (int s.digits)
    else if 0 < s.digits ∧ s.digits ≤ 0x8000000000000000 then some (int (-s.digits))
    else (s.float? true).map float
  else (s.float? negative).map float

/-- The exponent after a number's digits, and what follows it. -/
def exponentPart? : List Char → Option (Option Int × List Char)
  | 'e' :: cs | 'E' :: cs =>
    let (negative, cs) := splitSign cs
    match spanDigits cs with
    | ([], _) => none
    | (digits, rest) =>
      let n : Int := ofDigits digits
      some (some (if negative then -n else n), rest)
  | cs => some (none, cs)

/-- A number at the start of a text, without its minus sign, and what follows it. -/
def number? (negative : Bool) (cs : List Char) : Option (Json × List Char) := do
  let (whole, rest) := spanDigits cs
  if whole.isEmpty ∨ (whole.head? = some '0' ∧ 1 < whole.length) then none
  let (fraction, rest) ← match rest with
    | '.' :: rest =>
      match spanDigits rest with
      | ([], _) => none
      | (digits, rest) => some (some digits, rest)
    | rest => some (none, rest)
  let (exponent, rest) ← exponentPart? rest
  let scaled := takeWhole whole 0
  if fraction.isNone ∧ exponent.isNone then
    return (← wholeNumber? negative scaled, rest)
  else
    let scaled := takeFraction (fraction.getD []) scaled
    let scaled := { scaled with exponent := scaled.exponent + exponent.getD 0 }
    return (float (← scaled.float? negative), rest)

/-! ### Strings -/

def hexValue? (c : Char) : Option Nat :=
  if isDigit c then some (digitValue c)
  else if 'a' ≤ c ∧ c ≤ 'f' then some (c.toNat - 'a'.toNat + 10)
  else if 'A' ≤ c ∧ c ≤ 'F' then some (c.toNat - 'A'.toNat + 10)
  else none

/-- The number four hexadecimal digits stand for. -/
def hex4? (a b c d : Char) : Option Nat := do
  return ((← hexValue? a) * 16 + (← hexValue? b)) * 256 + (← hexValue? c) * 16 + (← hexValue? d)

/-- The character that a letter after a backslash stands for. -/
def unescape? : Char → Option Char
  | '"' => some '"'
  | '\\' => some '\\'
  | '/' => some '/'
  | 'b' => some '\x08'
  | 'f' => some '\x0c'
  | 'n' => some '\n'
  | 'r' => some '\r'
  | 't' => some '\t'
  | _ => none

/-- What is left of a string after its opening quote, with the characters read so far in reverse
order; also the text after the closing quote. Codes of surrogates stand in pairs. -/
def stringRest? : List Char → List Char → Option (String × List Char)
  | '"' :: rest, done => some (String.ofList done.reverse, rest)
  | '\\' :: 'u' :: a :: b :: c :: d :: rest, done => do
    let high ← hex4? a b c d
    if 0xDC00 ≤ high ∧ high < 0xE000 then none
    else if 0xD800 ≤ high ∧ high < 0xDC00 then
      match rest with
      | '\\' :: 'u' :: a :: b :: c :: d :: rest =>
        let low ← hex4? a b c d
        if 0xDC00 ≤ low ∧ low < 0xE000 then
          stringRest? rest
            (Char.ofNat (0x10000 + (high - 0xD800) * 0x400 + (low - 0xDC00)) :: done)
        else none
      | _ => none
    else stringRest? rest (Char.ofNat high :: done)
  | '\\' :: c :: rest, done => do
    let c ← unescape? c
    stringRest? rest (c :: done)
  | c :: rest, done => if c.toNat < 0x20 ∨ c = '\\' then none else stringRest? rest (c :: done)
  | [], _ => none

/-! ### Tokens -/

/-- A token: a mark, or a value that is neither array nor object. -/
inductive Token where
  | openArray | closeArray | openObject | closeObject | comma | colon
  | atom (value : Json)
  deriving Repr

def isBlank (c : Char) : Bool := c = ' ' || c = '\t' || c = '\n' || c = '\r'

/-- The first token of a text that starts with none of the blanks, and what follows it. -/
def token? : List Char → Option (Token × List Char)
  | '[' :: rest => some (.openArray, rest)
  | ']' :: rest => some (.closeArray, rest)
  | '\x7b' :: rest => some (.openObject, rest)
  | '\x7d' :: rest => some (.closeObject, rest)
  | ',' :: rest => some (.comma, rest)
  | ':' :: rest => some (.colon, rest)
  | '"' :: rest => (stringRest? rest []).map fun (s, rest) => (.atom (string s), rest)
  | '-' :: rest => (number? true rest).map fun (v, rest) => (.atom v, rest)
  | 't' :: 'r' :: 'u' :: 'e' :: rest => some (.atom (bool true), rest)
  | 'f' :: 'a' :: 'l' :: 's' :: 'e' :: rest => some (.atom (bool false), rest)
  | 'n' :: 'u' :: 'l' :: 'l' :: rest => some (.atom null, rest)
  | cs => (number? false cs).map fun (v, rest) => (.atom v, rest)

/-- The tokens of a text, in reverse order behind those already read. A token is never empty, so
there are at most as many steps as characters. -/
def tokens? : Nat → List Char → List Token → Option (List Token)
  | 0, cs, done => if cs.all isBlank then some done else none
  | fuel + 1, cs, done =>
    match cs with
    | [] => some done
    | c :: rest =>
      if isBlank c then tokens? fuel rest done
      else match token? (c :: rest) with
        | some (t, rest) => tokens? fuel rest (t :: done)
        | none => none

/-! ### The machine -/

/-- An array or object whose end has not been read. -/
inductive Frame where
  /-- Items in reverse order. -/
  | items (done : List Json)
  /-- Members in order of their names, and the name that the next value belongs to. -/
  | members (done : List (String × Json)) (name : String)

/-- What may come next. -/
inductive Expectation where
  | value | valueOrEnd | name | nameOrEnd | colon | commaOrEnd | nothing (result : Json)

/-- The machine between two tokens. -/
structure Machine where
  stack : List Frame
  next : Expectation

def Machine.put (value : Json) : List Frame → Machine
  | [] => ⟨[], .nothing value⟩
  | .items done :: stack => ⟨.items (value :: done) :: stack, .commaOrEnd⟩
  | .members done name :: stack => ⟨.members (insertMember name value done) name :: stack, .commaOrEnd⟩

/-- Opens an array or object, if the nesting stays below the limit. -/
def Machine.enter (limit : Nat) (stack : List Frame) (frame : Frame) (next : Expectation) :
    Option Machine :=
  if stack.length + 1 < limit then some ⟨frame :: stack, next⟩ else none

def Machine.step (limit : Nat) (m : Machine) (t : Token) : Option Machine :=
  match m.next, t, m.stack with
  | .value, .atom v, stack | .valueOrEnd, .atom v, stack => some (.put v stack)
  | .value, .openArray, stack | .valueOrEnd, .openArray, stack =>
    Machine.enter limit stack (.items []) .valueOrEnd
  | .value, .openObject, stack | .valueOrEnd, .openObject, stack =>
    Machine.enter limit stack (.members [] "") .nameOrEnd
  | .valueOrEnd, .closeArray, .items done :: stack
  | .commaOrEnd, .closeArray, .items done :: stack => some (.put (array done.reverse) stack)
  | .nameOrEnd, .closeObject, .members done _ :: stack
  | .commaOrEnd, .closeObject, .members done _ :: stack => some (.put (object done) stack)
  | .commaOrEnd, .comma, .items done :: stack => some ⟨.items done :: stack, .value⟩
  | .commaOrEnd, .comma, .members done name :: stack => some ⟨.members done name :: stack, .name⟩
  | .name, .atom (string name), .members done _ :: stack
  | .nameOrEnd, .atom (string name), .members done _ :: stack =>
    some ⟨.members done name :: stack, .colon⟩
  | .colon, .colon, stack => some ⟨stack, .value⟩
  | _, _, _ => none

/-- The value a text stands for, if it is the text of one value nested less deep than a limit. -/
def readWithin? (limit : Nat) (text : String) : Option Json := do
  let cs := text.toList
  let tokens ← tokens? cs.length cs []
  let m ← tokens.reverse.foldlM (Machine.step limit) ⟨[], .value⟩
  match m.next with
  | .nothing v => some v
  | _ => none

/-- The nesting that a reader of documents refuses. -/
def nestingLimit : Nat := 128

def read? (text : String) : Option Json := readWithin? nestingLimit text

end Json
end UtmTiles
