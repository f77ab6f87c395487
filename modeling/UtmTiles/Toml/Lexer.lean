import UtmTiles.Json.Reader
import UtmTiles.Toml.Basic

/-!
# Tokens of a TOML text

`Token.next` takes the first token off a text. Line ends are single newlines: `Toml.lines` has
made them so before.
-/

namespace UtmTiles
namespace Toml

/-- A text with newlines as line ends and without a byte order mark. -/
def lines (cs : List Char) : List Char :=
  match cs with
  | '\uFEFF' :: rest => fold rest
  | _ => fold cs
where
  /-- Newlines in place of carriage returns with newlines. -/
  fold : List Char → List Char
    | '\r' :: '\n' :: rest => '\n' :: fold rest
    | c :: rest => c :: fold rest
    | [] => []

def isWordChar (c : Char) : Bool :=
  decide ('A' ≤ c ∧ c ≤ 'Z') || decide ('a' ≤ c ∧ c ≤ 'z') || Decimal.isDigit c || c = '-' || c = '_'

def isBlank (c : Char) : Bool := c = ' ' || c = '\t'

/-- A character that may stand in a comment. -/
def isCommentChar (c : Char) : Bool := c = '\t' || 0x20 ≤ c.toNat

/-- A character that may stand in a string as itself. -/
def isStringChar (c : Char) : Bool := c = '\t' || (0x20 ≤ c.toNat && c.toNat != 0x7F)

/-! ### Strings -/

/-- The code of some hexadecimal digits, and what follows them. -/
def hexCode : Nat → Nat → List Char → Except Fault (Nat × List Char)
  | 0, code, cs => .ok (code, cs)
  | _ + 1, _, [] => .error .openString
  | n + 1, code, c :: cs =>
    match Json.hexValue? c with
    | some v => hexCode n (16 * code + v) cs
    | none => .error (.hexEscape c)

/-- The character of some hexadecimal digits, and what follows them. -/
def hexChar (digits : Nat) (cs : List Char) : Except Fault (Char × List Char) := do
  let (code, rest) ← hexCode digits 0 cs
  if code < 0xD800 ∨ (0xE000 ≤ code ∧ code < 0x110000) then .ok (Char.ofNat code, rest)
  else .error (.escapeValue code)

/-- The rest of a text after a backslash at the end of a line: without the blanks up to that end and
all white space after it. `first` is the character after the backslash. -/
def continued (first : Char) (cs : List Char) : Except Fault (List Char) :=
  let skip := fun cs => List.dropWhile (fun c => isBlank c || c = '\n') cs
  if first = '\n' then .ok (skip cs)
  else
    match cs.dropWhile isBlank with
    | '\n' :: rest => .ok (skip rest)
    | [] => .ok []
    | _ => .error (.escape first)

/-- What an escape sequence stands for, and what follows it. -/
def escaped (multiline : Bool) : List Char → Except Fault (List Char × List Char)
  | '"' :: cs => .ok (['"'], cs)
  | '\\' :: cs => .ok (['\\'], cs)
  | 'b' :: cs => .ok (['\x08'], cs)
  | 'f' :: cs => .ok (['\x0c'], cs)
  | 'n' :: cs => .ok (['\n'], cs)
  | 'r' :: cs => .ok (['\r'], cs)
  | 't' :: cs => .ok (['\t'], cs)
  | 'u' :: cs => (hexChar 4 cs).map fun (c, rest) => ([c], rest)
  | 'U' :: cs => (hexChar 8 cs).map fun (c, rest) => ([c], rest)
  | c :: cs =>
    if multiline ∧ (isBlank c ∨ c = '\n') then (continued c cs).map fun rest => ([], rest)
    else .error (.escape c)
  | [] => .error .openString

/-- A string's characters after its opening quotes, with those read so far in reverse order, and
what follows the closing quotes. Backslashes have a meaning between double quotes only. Each step
takes a character, so the length of the text is enough fuel. -/
def stringRest (quote : Char) (multiline : Bool) :
    Nat → List Char → List Char → Except Fault (List Char × List Char)
  | 0, _, _ | _, [], _ => .error .openString
  | fuel + 1, c :: cs, done =>
    if c = '\n' then
      if multiline then stringRest quote multiline fuel cs (c :: done) else .error .newlineInString
    else if c = quote then
      if !multiline then .ok (done.reverse, cs)
      else
        let more := (cs.takeWhile (· = quote)).length
        if more < 2 then
          stringRest quote multiline fuel (cs.drop more) (List.replicate (more + 1) quote ++ done)
        else
          let extra := min (more - 2) 2
          .ok ((List.replicate extra quote ++ done).reverse, cs.drop (2 + extra))
    else if c = '\\' ∧ quote = '"' then
      match escaped multiline cs with
      | .ok (chars, rest) => stringRest quote multiline fuel rest (chars ++ done)
      | .error fault => .error fault
    else if isStringChar c then stringRest quote multiline fuel cs (c :: done)
    else .error (.notInString c)

/-- A string after its first quote, and what follows it. A newline right after three opening quotes
does not count. -/
def quotedToken (quote : Char) (cs : List Char) : Except Fault (Token × List Char) :=
  if cs.head? = some quote then
    if cs.tail.head? = some quote then
      let cs := cs.drop 2
      let cs := if cs.head? = some '\n' then cs.tail else cs
      (stringRest quote true (cs.length + 1) cs []).map fun (value, rest) =>
        (.string (String.ofList value) true, rest)
    else .ok (.string "" false, cs.tail)
  else
    (stringRest quote false (cs.length + 1) cs []).map fun (value, rest) =>
      (.string (String.ofList value) false, rest)

/-! ### Tokens -/

/-- The first token of a text and what follows it; nothing at the end of the text. -/
def Token.next : List Char → Except Fault (Option (Token × List Char))
  | [] => .ok none
  | '\n' :: cs => .ok (some (.newline, cs))
  | '#' :: cs => .ok (some (.comment, cs.dropWhile isCommentChar))
  | '=' :: cs => .ok (some (.equals, cs))
  | '.' :: cs => .ok (some (.period, cs))
  | ',' :: cs => .ok (some (.comma, cs))
  | ':' :: cs => .ok (some (.colon, cs))
  | '+' :: cs => .ok (some (.plus, cs))
  | '\x7b' :: cs => .ok (some (.leftBrace, cs))
  | '\x7d' :: cs => .ok (some (.rightBrace, cs))
  | '[' :: cs => .ok (some (.leftBracket, cs))
  | ']' :: cs => .ok (some (.rightBracket, cs))
  | '\'' :: cs => (quotedToken '\'' cs).map some
  | '"' :: cs => (quotedToken '"' cs).map some
  | c :: cs =>
    if isBlank c then
      .ok (some (.blank (c :: cs.takeWhile isBlank), cs.dropWhile isBlank))
    else if isWordChar c then
      .ok (some (.word (c :: cs.takeWhile isWordChar), cs.dropWhile isWordChar))
    else .error (.unexpected c)

end Toml
end UtmTiles
