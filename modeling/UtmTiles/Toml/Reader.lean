import UtmTiles.Toml.Date
import UtmTiles.Toml.Lexer

/-!
# Reading TOML

A document is a list of lines: headers of tables, and keys with values. Reading stops at the first
fault of the text. What the lines mean together is another matter (`Toml.Document`): values as they
are read here, `Node`s, may still hold several entries with one key.
-/

namespace UtmTiles
namespace Toml

/-- A value as it stands in the text. -/
inductive Node where
  | string (s : String)
  | integer (n : Int)
  | float (x : Float)
  | boolean (b : Bool)
  | date (text : List Char)
  | array (items : List Node)
  /-- A table between braces. -/
  | inlineTable (entries : List (String × Node))
  /-- A table that dotted keys build up. -/
  | dottedTable (entries : List (String × Node))
  deriving Repr, Inhabited

/-- A header and the lines below it. The lines above the first header have none. -/
structure Section where
  path : List String
  /-- The header stands in two pairs of brackets: the section is an item of an array. -/
  isItem : Bool
  entries : List (String × Node)
  deriving Repr

/-- A step of reading: what is left of the text, or the first fault. -/
abbrev Reader := StateT (List Char) (Except Fault)

namespace Reader

/-! ### Tokens -/

def next : Reader (Option Token) := fun cs =>
  match Token.next cs with
  | .ok (some (t, rest)) => .ok (some t, rest)
  | .ok none => .ok (none, [])
  | .error fault => .error fault

def peek : Reader (Option Token) := fun cs =>
  match Token.next cs with
  | .ok t => .ok (t.map Prod.fst, cs)
  | .error fault => .error fault

/-- Takes the next token if it is the given one. -/
def eat (t : Token) : Reader Bool := do
  if (← peek) = some t then
    let _ ← next
    return true
  else return false

/-- Takes a token that has to be the given one. -/
def expect (t : Token) : Reader Unit := do
  let found ← next
  if found = some t then return () else throw (.missing (.token t) found)

def blanks : Reader Unit := modify (List.dropWhile isBlank)

def endOfLine : Reader Unit := do
  match ← next with
  | none | some .newline => return ()
  | found => throw (.missing .endOfLine found)

/-- Takes a comment and the end of its line, if there is one. -/
def comment : Reader Bool := do
  match ← get with
  | '#' :: cs =>
    set (cs.dropWhile isCommentChar)
    endOfLine
    return true
  | _ => return false

/-- Takes the end of a line, which may have blanks and a comment before it. -/
def restOfLine : Reader Unit := do
  blanks
  if !(← comment) then endOfLine

def key : Reader String := do
  match ← next with
  | some (.word cs) => return String.ofList cs
  | some (.string s false) => return s
  | some (.string _ true) => throw .multilineKey
  | found => throw (.missing .key found)

/-! ### Numbers -/

def isDigitOf (radix : Nat) (c : Char) : Bool :=
  match Json.hexValue? c with
  | some v => v < radix
  | none => false

def hasDoubleUnderscore (cs : List Char) : Bool :=
  (cs.zip cs.tail).any fun (c, d) => c = '_' && d = '_'

/-- An optional sign and digits at the start of a text, and what follows them. Single underscores may
stand between digits. -/
def digits (radix : Nat) (signed leadingZeros : Bool) (cs : List Char) :
    Except Fault (List Char × List Char) :=
  let (sign, cs) := match cs with
    | '-' :: rest => if signed then (['-'], rest) else ([], cs)
    | _ => ([], cs)
  let isPart := fun c => isDigitOf radix c || c = '_'
  let run := cs.takeWhile isPart
  let plain := run.filter (· ≠ '_')
  if run.isEmpty ∨ run.head? = some '_' ∨ run.getLast? = some '_' ∨ hasDoubleUnderscore run then
    .error .number
  else if !leadingZeros ∧ plain.head? = some '0' ∧ 1 < plain.length then .error .number
  else .ok (sign ++ plain, cs.dropWhile isPart)

/-- The number that digits with an optional sign stand for. -/
def valueOf (radix : Nat) (cs : List Char) : Int :=
  let magnitude (ds : List Char) : Nat :=
    ds.foldl (fun n c => radix * n + (Json.hexValue? c).getD 0) 0
  match cs with
  | '-' :: ds => -(magnitude ds : Int)
  | ds => magnitude ds

/-- A whole number of 64 bits that makes up a word. -/
def integer (radix : Nat) (cs : List Char) : Except Fault Node := do
  let (ds, rest) ← digits radix (radix == 10) (radix != 10) cs
  let n := valueOf radix ds
  if rest.isEmpty ∧ Binary64.minIndex ≤ n ∧ n ≤ Binary64.maxIndex then .ok (.integer n)
  else .error .number

/-- The exponent that is left of a word, if any; a plus sign in it divides words. -/
def exponent (cs : List Char) : Reader (List Char) := do
  match cs with
  | [] => return []
  | c :: rest =>
    if c ≠ 'e' ∧ c ≠ 'E' then throw .number
    let (ds, rest) ←
      if rest.isEmpty then
        let _ ← eat .plus
        match ← next with
        | some (.word w) => digits 10 false true w
        | _ => throw .number
      else digits 10 true true rest
    if rest.isEmpty then return 'E' :: ds else throw .number

/-- A finite double, from the word before the point and the word after it. -/
def double (whole : List Char) (fraction : Option (List Char)) : Reader Node := do
  let (ds, rest) ← digits 10 true false whole
  let (places, rest) ← match fraction with
    | none => pure ([], rest)
    | some cs => do
      if !rest.isEmpty then throw .number
      let (ds, rest) ← digits 10 false true cs
      pure ('.' :: ds, rest)
  let power ← exponent rest
  match Decimal.read? (String.ofList (ds ++ places ++ power)) with
  | some x => if x.isFinite then return .float x else throw .number
  | none => throw .number

/-- The number that starts with a word. -/
def number (w : List Char) : Reader Node := do
  match w with
  | '0' :: 'x' :: cs => integer 16 cs
  | '0' :: 'o' :: cs => integer 8 cs
  | '0' :: 'b' :: cs => integer 2 cs
  | _ =>
    if w.contains 'e' || w.contains 'E' then double w none
    else if ← eat .period then
      match ← next with
      | some (.word fraction) => double w (some fraction)
      | _ => throw .number
    else
      match String.ofList w with
      | "inf" => return .float (1.0 / 0.0)
      | "-inf" => return .float (-1.0 / 0.0)
      | "nan" | "-nan" => return .float (0.0 / 0.0)
      | _ => integer 10 w

/-! ### Dates -/

def dateWord : Reader Unit := do
  match ← next with
  | some (.word _) => return ()
  | _ => throw .date

/-- Takes a blank and an hour that follow a day. -/
def spacedHour : Reader Unit := fun cs =>
  match Token.next cs with
  | .ok (some (.blank [' '], rest)) =>
    match Token.next rest with
    | .ok (some (.word _, rest)) => .ok ((), rest)
    | _ => .ok ((), cs)
  | _ => .ok ((), cs)

/-- The date that starts with a word. The hour's colon may have been taken already. -/
def date (w : List Char) (inTime : Bool) : Reader Node := do
  let start ← get
  spacedHour
  if inTime || (← eat .colon) then
    dateWord
    expect .colon
    dateWord
    if ← eat .period then dateWord
    if ← eat .plus then dateWord
    if ← eat .colon then dateWord
  let rest ← get
  let between := start.take (start.length - rest.length)
  return .date (w ++ (if inTime then [':'] else []) ++ between)

def looksLikeDate (w : List Char) : Bool :=
  let hasExponent := (w.zip w.tail).any fun (c, d) => (c = 'e' || c = 'E') && d = '-'
  w.contains 'T' || w.contains 't' || (w.tail.contains '-' && !hasExponent)

/-- The number or date that starts with a word. -/
def numberOrDate (w : List Char) : Reader Node := do
  if looksLikeDate w then date w false
  else if ← eat .colon then date w true
  else number w

/-! ### Values -/

def wordValue (w : List Char) : Reader Node :=
  let text := String.ofList w
  if text = "true" then return .boolean true
  else if text = "false" then return .boolean false
  else if text = "inf" ∨ text = "nan" then numberOrDate w
  else if w.head? = some '-' ∨ (w.head?.map Decimal.isDigit).getD false then numberOrDate w
  else throw .bareWord

def addDotted : List String → Node → List (String × Node) → Except Fault (List (String × Node))
  | [], _, entries => .ok entries
  | [k], v, entries => .ok (entries ++ [(k, v)])
  | k :: path, v, entries =>
    match entries.findIdx? (·.1 = k) with
    | none => do
      let inner ← addDotted path v []
      .ok (entries ++ [(k, .dottedTable inner)])
    | some i =>
      match entries[i]? with
      | some (_, .dottedTable inner) => do
        let inner ← addDotted path v inner
        .ok (entries.set i (k, .dottedTable inner))
      | _ => .error .notTable

/-- The parts of a dotted key after the first one. -/
def moreKeys : Nat → Reader (List String)
  | 0 => return []
  | fuel + 1 => do
    blanks
    if ← eat .period then
      blanks
      let k ← key
      return k :: (← moreKeys fuel)
    else return []

def keys (fuel : Nat) : Reader (List String) := do
  let k ← key
  return k :: (← moreKeys fuel)

/-- Leaves out blanks, newlines and comments. -/
def gaps : Nat → Reader Unit
  | 0 => return ()
  | fuel + 1 => do
    blanks
    if ← eat .newline then gaps fuel
    else if ← comment then gaps fuel

mutual

/-- Takes a value. Values, items and entries take at least a character each, so the length of the
text is enough fuel. -/
def value : Nat → Reader Node
  | 0 => throw .textEnds
  | fuel + 1 => do
    match ← next with
    | some (.string s _) => return .string s
    | some (.word w) => wordValue w
    | some .plus =>
      match ← next with
      | some (.word w) => number w
      | _ => throw .number
    | some .leftBrace =>
      blanks
      if ← eat .rightBrace then return .inlineTable []
      else return .inlineTable (← entries fuel [])
    | some .leftBracket => return .array (← items fuel [])
    | some t => throw (.missing .value (some t))
    | none => throw .textEnds

/-- Takes the items of an array, behind those already read in reverse order, and its end. -/
def items : Nat → List Node → Reader (List Node)
  | 0, _ => throw .textEnds
  | fuel + 1, done => do
    gaps fuel
    if ← eat .rightBracket then return done.reverse
    let v ← value fuel
    gaps fuel
    if ← eat .comma then items fuel (v :: done)
    else
      gaps fuel
      expect .rightBracket
      return (v :: done).reverse

/-- Takes the entries of an inline table, behind those already read, and its end. -/
def entries : Nat → List (String × Node) → Reader (List (String × Node))
  | 0, _ => throw .textEnds
  | fuel + 1, done => do
    let path ← keys fuel
    blanks
    expect .equals
    blanks
    let v ← value fuel
    let done ← addDotted path v done
    blanks
    if ← eat .rightBrace then return done
    expect .comma
    blanks
    entries fuel done

end

/-! ### Lines -/

/-- The parts of a header's path after the first one, and the header's end. -/
def headerRest (isItem : Bool) : Nat → Reader (List String)
  | 0 => throw .textEnds
  | fuel + 1 => do
    blanks
    if ← eat .period then
      blanks
      let k ← key
      return k :: (← headerRest isItem fuel)
    else
      expect .rightBracket
      if isItem then expect .rightBracket
      restOfLine
      return []

def header (fuel : Nat) : Reader Section := do
  expect .leftBracket
  let isItem ← eat .leftBracket
  blanks
  let k ← key
  return ⟨k :: (← headerRest isItem fuel), isItem, []⟩

/-- Takes a key and its value, and adds them to a section. -/
def keyValue (fuel : Nat) (s : Section) : Reader Section := do
  let path ← keys fuel
  blanks
  expect .equals
  blanks
  let v ← value fuel
  restOfLine
  return { s with entries := ← addDotted path v s.entries }

/-- Takes the sections of a text. The current section comes first, those before it in reverse
order. -/
def sections : Nat → Section → List Section → Reader (List Section)
  | 0, current, done => return (current :: done).reverse
  | fuel + 1, current, done => do
    gaps (fuel + 1)
    match ← peek with
    | none => return (current :: done).reverse
    | some .leftBracket =>
      let s ← header fuel
      sections fuel s (current :: done)
    | some _ =>
      let s ← keyValue fuel current
      sections fuel s done

end Reader

/-- The sections of a text; the first one holds the lines above the first header. -/
def sections (text : String) : Except Fault (List Section) :=
  let cs := lines text.toList
  ((Reader.sections (cs.length + 1) ⟨[], false, []⟩ []).run cs).map Prod.fst

end Toml
end UtmTiles
