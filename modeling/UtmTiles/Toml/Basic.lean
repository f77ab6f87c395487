import UtmTiles.Key.Basic
import UtmTiles.Text.Quoted

/-!
# TOML documents

The values of a document, and what can be wrong with its text.
-/

namespace UtmTiles
namespace Toml

/-- A value. Whole numbers and doubles are different kinds of values. -/
inductive Value where
  | string (s : String)
  | integer (n : Int)
  | float (x : Float)
  | boolean (b : Bool)
  /-- A date, a time or both, in normal form. -/
  | date (text : String)
  | array (items : List Value)
  | table (entries : List (String × Value))
  deriving Repr, Inhabited

/-- A piece of a text. -/
inductive Token where
  /-- Blanks and tabulators. -/
  | blank (text : List Char)
  | newline
  | comment
  | equals | period | comma | colon | plus
  | leftBrace | rightBrace | leftBracket | rightBracket
  /-- Letters, digits, hyphens and underscores: a key, a number or a part of one. -/
  | word (text : List Char)
  | string (value : String) (multiline : Bool)
  deriving DecidableEq, Repr

def Token.describe : Token → String
  | blank _ => "whitespace"
  | newline => "a newline"
  | comment => "a comment"
  | equals => "an equals"
  | period => "a period"
  | comma => "a comma"
  | colon => "a colon"
  | plus => "a plus"
  | leftBrace => "a left brace"
  | rightBrace => "a right brace"
  | leftBracket => "a left bracket"
  | rightBracket => "a right bracket"
  | word _ => "an identifier"
  | string _ multiline => if multiline then "a multiline string" else "a string"

/-- What may be missing. -/
inductive Wanted where
  | token (token : Token)
  | value
  | key
  | endOfLine
  deriving DecidableEq, Repr

def Wanted.describe : Wanted → String
  | token t => t.describe
  | value => "a value"
  | key => "a table key"
  | endOfLine => "newline"

/-- What is wrong with a text. -/
inductive Fault where
  | unexpected (c : Char)
  | notInString (c : Char)
  | escape (c : Char)
  | hexEscape (c : Char)
  | escapeValue (code : Nat)
  | newlineInString
  | openString
  | multilineKey
  /-- `found` is nothing at the end of the text. -/
  | missing (wanted : Wanted) (found : Option Token)
  | textEnds
  | number
  | date
  | dateValue
  | bareWord
  | duplicateKey (key : String)
  | duplicateTable (path : List String)
  | tableAsArray
  | notTable
  deriving DecidableEq, Repr

/-- A character in a message: codes stand for what is not printable ASCII. -/
def charText (c : Char) : String :=
  match c with
  | '\t' => "\\t"
  | '\r' => "\\r"
  | '\n' => "\\n"
  | '\'' => "\\'"
  | '"' => "\\\""
  | '\\' => "\\\\"
  | c =>
    if 0x20 ≤ c.toNat ∧ c.toNat ≤ 0x7E then String.ofList [c]
    else "\\u\x7b" ++ String.ofList (Text.codeDigits c.toNat) ++ "\x7d"

def Fault.message : Fault → String
  | unexpected c => s!"unexpected character found: `{charText c}`"
  | notInString c => s!"invalid character in string: `{charText c}`"
  | escape c => s!"invalid escape character in string: `{charText c}`"
  | hexEscape c => s!"invalid hex escape character in string: `{charText c}`"
  | escapeValue code => s!"invalid escape value: `{code}`"
  | newlineInString => "newline in string found"
  | openString => "unterminated string"
  | multilineKey => "multiline strings are not allowed for key"
  | missing wanted found =>
    "expected " ++ wanted.describe ++ ", found " ++ (found.map Token.describe).getD "eof"
  | textEnds => "unexpected eof encountered"
  | number => "invalid number"
  | date => "invalid date"
  | dateValue => "failed to parse datetime"
  | bareWord => "invalid TOML value, did you mean to use a quoted string?"
  | duplicateKey key => s!"duplicate key: `{key}`"
  | duplicateTable path => "redefinition of table `" ++ ".".intercalate path ++ "`"
  | tableAsArray => "table redefined as array"
  | notTable => "dotted key attempted to extend non-table type"

end Toml
end UtmTiles
