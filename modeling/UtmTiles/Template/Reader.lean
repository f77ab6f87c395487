import UtmTiles.Decimal.Digits
import UtmTiles.Template.Basic
import UtmTiles.Text.Blank

/-!
# Reading templates

A template is first cut into texts and tags. White space next to hyphens is taken away then, and
comments and raw blocks are dealt with. What is left is a sequence of texts, values and control tags,
from which choices are put together.
-/

namespace UtmTiles
namespace Template

open Decimal (isDigit)

/-! ### Expressions -/

/-- A piece of an expression. -/
inductive Token where
  | path (parts : List String)
  | text (s : String)
  | number (literal : String)
  | mark (s : String)
  deriving DecidableEq, Repr

def isSpace (c : Char) : Bool := c = ' ' || c = '\t' || c = '\r' || c = '\n'

/-- A character of a name; a name does not start with a digit. -/
def isNameChar (c : Char) : Bool := c.isAlpha || isDigit c || c = '_'

def isQuote (c : Char) : Bool := c = '"' || c = '\'' || c = '\u0060'

/-- The characters up to a closing quote, and what follows it. -/
def quotedRest (quote : Char) : List Char → Option (List Char × List Char)
  | [] => none
  | c :: cs =>
    if c = quote then some ([], cs)
    else (quotedRest quote cs).map fun (s, rest) => (c :: s, rest)

/-- The members after a name: `.member` or `["member"]`. -/
def members? : Nat → List Char → Option (List String × List Char)
  | 0, cs => some ([], cs)
  | fuel + 1, cs =>
    match cs with
    | '.' :: rest =>
      let name := rest.takeWhile isNameChar
      if name.isEmpty then none
      else (members? fuel (rest.dropWhile isNameChar)).map fun (parts, rest) =>
        (String.ofList name :: parts, rest)
    | '[' :: q :: rest =>
      if isQuote q then
        match quotedRest q rest with
        | some (name, ']' :: rest) =>
          (members? fuel rest).map fun (parts, rest) => (String.ofList name :: parts, rest)
        | _ => none
      else none
    | _ => some ([], cs)

/-- A whole number or a decimal without needless zeros in front, and what follows it. -/
def number? (cs : List Char) : Option (List Char × List Char) :=
  let (sign, rest) := match cs with
    | '-' :: rest => (['-'], rest)
    | rest => ([], rest)
  let whole := match rest with
    | '0' :: _ => ['0']
    | rest => rest.takeWhile isDigit
  let after := rest.drop whole.length
  if whole.isEmpty then none
  else
    match after with
    | '.' :: more =>
      let fraction := more.takeWhile isDigit
      if fraction.isEmpty then some (sign ++ whole, after)
      else some (sign ++ whole ++ '.' :: fraction, more.dropWhile isDigit)
    | _ => some (sign ++ whole, after)

/-- The first token of a text that starts with no white space. -/
def token? (cs : List Char) : Option (Token × List Char) :=
  match cs with
  | '=' :: '=' :: rest => some (.mark "==", rest)
  | '!' :: '=' :: rest => some (.mark "!=", rest)
  | '=' :: rest => some (.mark "=", rest)
  | '|' :: rest => some (.mark "|", rest)
  | '(' :: rest => some (.mark "(", rest)
  | ')' :: rest => some (.mark ")", rest)
  | ',' :: rest => some (.mark ",", rest)
  | c :: rest =>
    if isQuote c then (quotedRest c rest).map fun (s, rest) => (.text (String.ofList s), rest)
    else if isDigit c || c = '-' then
      (number? cs).map fun (literal, rest) => (.number (String.ofList literal), rest)
    else if isNameChar c then
      (members? cs.length (rest.dropWhile isNameChar)).map fun (parts, rest') =>
        (.path (String.ofList (c :: rest.takeWhile isNameChar) :: parts), rest')
    else none
  | [] => none

/-- The tokens of a tag up to its closing bracket, whether the bracket has a hyphen, and what follows
the tag. Each step takes a character, so the length of the text is enough fuel. -/
def tagRest (close : List Char) : Nat → List Char → Option (List Token × Bool × List Char)
  | 0, _ => none
  | fuel + 1, cs =>
    match cs with
    | [] => none
    | c :: rest =>
      if isSpace c then tagRest close fuel rest
      else if close.isPrefixOf cs then some ([], false, cs.drop close.length)
      else if ('-' :: close).isPrefixOf cs then some ([], true, cs.drop (close.length + 1))
      else
        match token? cs with
        | none => none
        | some (t, rest) =>
          (tagRest close fuel rest).map fun (ts, trim, rest) => (t :: ts, trim, rest)

def Token.isWord (name : String) (t : Token) : Bool := t == .path [name]

def atom? : Token → Option Expr
  | .path ["true"] | .path ["True"] => some (.boolean true)
  | .path ["false"] | .path ["False"] => some (.boolean false)
  | .path parts => some (.lookup parts)
  | .text s => some (.text s)
  | .number literal => some (.number literal)
  | .mark _ => none

mutual

/-- A value with its filters and tests. -/
def basic? : Nat → List Token → Option (Expr × List Token)
  | 0, _ | _, [] => none
  | fuel + 1, t :: ts => do
    let e ← atom? t
    match ts with
    -- a test ends a value, a filter may be followed by others
    | .path ["is"] :: .path ["defined"] :: rest => some (.isDefined e, rest)
    | .path ["is"] :: .path ["undefined"] :: rest
    | .path ["is"] :: .path ["not"] :: .path ["defined"] :: rest =>
      some (.negation (.isDefined e), rest)
    | _ => filtered? fuel e ts

/-- A value with the filters that follow it. -/
def filtered? : Nat → Expr → List Token → Option (Expr × List Token)
  | 0, _, _ => none
  | fuel + 1, e, ts =>
    match ts with
    | .mark "|" :: .path ["default"] :: .mark "(" :: .path ["value"] :: .mark "=" :: ts => do
      let (other, ts) ← either? fuel ts
      match ts with
      | .mark ")" :: ts => filtered? fuel (.fallback e other) ts
      | _ => none
    | .mark "|" :: _ => none
    | _ => some (e, ts)

/-- A comparison, a negated one, or an expression in parentheses. -/
def compared? : Nat → List Token → Option (Expr × List Token)
  | 0, _ | _, [] => none
  | fuel + 1, t :: ts =>
    if t.isWord "not" then (compared? fuel ts).map fun (e, ts) => (.negation e, ts)
    else if t = .mark "(" then do
      let (e, ts) ← either? fuel ts
      match ts with
      | .mark ")" :: ts => some (e, ts)
      | _ => none
    else do
      let (e, ts) ← basic? fuel (t :: ts)
      match ts with
      | .mark "==" :: ts => (basic? fuel ts).map fun (f, ts) => (.equality e f, ts)
      | .mark "!=" :: ts => (basic? fuel ts).map fun (f, ts) => (.negation (.equality e f), ts)
      | _ => some (e, ts)

def both? : Nat → List Token → Option (Expr × List Token)
  | 0, _ => none
  | fuel + 1, ts => do
    let (e, ts) ← compared? fuel ts
    match ts with
    | .path ["and"] :: ts => (both? fuel ts).map fun (f, ts) => (.conjunction e f, ts)
    | _ => some (e, ts)

def either? : Nat → List Token → Option (Expr × List Token)
  | 0, _ => none
  | fuel + 1, ts => do
    let (e, ts) ← both? fuel ts
    match ts with
    | .path ["or"] :: ts => (either? fuel ts).map fun (f, ts) => (.disjunction e f, ts)
    | _ => some (e, ts)

end

/-- The expression that some tokens are. Each token takes up to five steps. -/
def expr? (ts : List Token) : Option Expr :=
  match either? (5 * ts.length + 5) ts with
  | some (e, []) => some e
  | _ => none

/-! ### Texts and tags -/

/-- A text, a value or a control tag. -/
inductive Part where
  | text (s : List Char)
  | value (e : Expr)
  | choose (condition : Expr)
  | chooseAlso (condition : Expr)
  | otherwise
  | close
  deriving Inhabited

/-- The text before a mark, and what follows the mark. -/
def splitAt? (mark : List Char) : List Char → Option (List Char × List Char)
  | [] => none
  | c :: cs =>
    if mark.isPrefixOf (c :: cs) then some ([], (c :: cs).drop mark.length)
    else (splitAt? mark cs).map fun (s, rest) => (c :: s, rest)

def splitHyphen : List Char → Bool × List Char
  | '-' :: cs => (true, cs)
  | cs => (false, cs)

/-- The characters up to an opening bracket of a tag, and the rest from there. -/
def splitText : List Char → List Char × List Char
  | [] => ([], [])
  | c :: cs =>
    if c = '\x7b' ∧ (cs.head? = some '\x7b' ∨ cs.head? = some '%' ∨ cs.head? = some '#') then
      ([], c :: cs)
    else
      let (s, rest) := splitText cs
      (c :: s, rest)

/-- A text without the white space that hyphens take away. -/
def trimmed (left right : Bool) (s : List Char) : List Char :=
  let s := if left then Text.trimStart s else s
  if right then Text.trimEnd s else s

/-- A comment's end: what follows it, and whether it has a hyphen. -/
def commentEnd? (cs : List Char) : Option (Bool × List Char) :=
  (splitAt? ['#', '\x7d'] cs).map fun (s, rest) => (s.getLast? == some '-', rest)

/-- The next tag that ends a raw block: the text before it, whether its brackets have hyphens, and
what follows it. -/
def rawEnd? : List Char → Option (List Char × Bool × Bool × List Char)
  | [] => none
  | c :: cs =>
    let found :=
      match c :: cs with
      | '\x7b' :: '%' :: rest =>
        let (left, rest) := splitHyphen rest
        match tagRest ['%', '\x7d'] (rest.length + 1) rest with
        | some ([.path ["endraw"]], right, rest) => some ([], left, right, rest)
        | _ => none
      | _ => none
    match found with
    | some result => some result
    | none => (rawEnd? cs).map fun (s, result) => (c :: s, result)

/-- The control tag that some tokens are. -/
def control? : List Token → Option Part
  | .path ["if"] :: ts => (expr? ts).map .choose
  | .path ["elif"] :: ts => (expr? ts).map .chooseAlso
  | [.path ["else"]] => some .otherwise
  | [.path ["endif"]] => some .close
  | _ => none

/-- The parts of a template, from a place where the tag before takes away white space or does not.
Each step takes a tag, so the length of the text is enough fuel. -/
def parts? : Nat → Bool → List Char → Option (List Part)
  | 0, _, _ => none
  | fuel + 1, trim, cs =>
    let (s, rest) := splitText cs
    match rest with
    | '\x7b' :: '#' :: rest => do
      let (left, rest) := splitHyphen rest
      let (right, rest) ← commentEnd? rest
      return .text (trimmed trim left s) :: (← parts? fuel right rest)
    | '\x7b' :: '%' :: rest => do
      let (left, rest) := splitHyphen rest
      let (ts, right, rest) ← tagRest ['%', '\x7d'] (rest.length + 1) rest
      if ts = [.path ["raw"]] then
        let (raw, rawLeft, rawRight, rest) ← rawEnd? rest
        return .text (trimmed trim left s) :: .text (trimmed right rawLeft raw) ::
          (← parts? fuel rawRight rest)
      else
        return .text (trimmed trim left s) :: (← control? ts) :: (← parts? fuel right rest)
    | '\x7b' :: _ :: rest => do
      let (left, rest) := splitHyphen rest
      let (ts, right, rest) ← tagRest ['\x7d', '\x7d'] (rest.length + 1) rest
      return .text (trimmed trim left s) :: .value (← expr? ts) :: (← parts? fuel right rest)
    | _ => some [.text (trimmed trim false s)]

/-! ### Choices -/

/-- A choice whose end has not been read: its finished branches in reverse order, the condition of
the current one, which is the last if it has none, and the pieces before the choice in reverse
order. -/
structure Open where
  branches : List (Expr × List Piece)
  condition : Option Expr
  before : List Piece

/-- One part, with the current pieces in reverse order and the choices around them. -/
def assemble (state : List Piece × List Open) (part : Part) : Option (List Piece × List Open) :=
  match part, state with
  | .text s, (done, choices) => some (.text s :: done, choices)
  | .value e, (done, choices) => some (.value e :: done, choices)
  | .choose e, (done, choices) => some ([], ⟨[], some e, done⟩ :: choices)
  | .chooseAlso e, (done, ⟨branches, some condition, before⟩ :: choices) =>
    some ([], ⟨(condition, done.reverse) :: branches, some e, before⟩ :: choices)
  | .otherwise, (done, ⟨branches, some condition, before⟩ :: choices) =>
    some ([], ⟨(condition, done.reverse) :: branches, none, before⟩ :: choices)
  | .close, (done, ⟨branches, some condition, before⟩ :: choices) =>
    some (.choice ((condition, done.reverse) :: branches).reverse [] :: before, choices)
  | .close, (done, ⟨branches, none, before⟩ :: choices) =>
    some (.choice branches.reverse done.reverse :: before, choices)
  | _, _ => none

def read (text : String) : Except Fault (List Piece) :=
  let cs := text.toList
  match (parts? (cs.length + 1) false cs).bind fun parts => parts.foldlM assemble ([], []) with
  | some (done, []) => .ok done.reverse
  | _ => .error .malformed

end Template
end UtmTiles
