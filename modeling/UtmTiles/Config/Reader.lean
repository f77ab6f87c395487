import UtmTiles.Config.Decode
import UtmTiles.Template.Render
import UtmTiles.Toml.Document

/-!
# Reading configurations

A configuration is a TOML document with variables in it: its text is a template. The older syntax
for variables, `${NAME}` with a name of ASCII letters and digits, is refused wherever it stands.
-/

namespace UtmTiles

/-- What a file holds. -/
inductive FileContent where
  | absent
  | text (s : String)
  | unreadable (reason : String)
  deriving DecidableEq, Repr

/-- What reading bytes that are no text fails with. -/
def FileContent.notText : FileContent := .unreadable "stream did not contain valid UTF-8"

namespace Config

def isNameChar (c : Char) : Bool := c.isAlpha || Decimal.isDigit c

/-- The text has a variable in the old syntax. -/
def hasOldVariable : List Char → Bool
  | [] => false
  | c :: cs =>
    (match c :: cs with
      | '$' :: '\x7b' :: rest =>
        !(rest.takeWhile isNameChar).isEmpty && (rest.dropWhile isNameChar).head? == some '\x7d'
      | _ => false) || hasOldVariable cs

/-- The name is one of a file in a markup language. -/
def isMarkup (path : String) : Bool :=
  [".html", ".htm", ".xml"].any fun ending => ending.toList.isSuffixOf path.toList

/-- The configuration that a text stands for. The path is where the text comes from. -/
def read (env : Template.Variables) (text path : String) : Except ConfigFault Config :=
  if hasOldVariable text.toList then .error .oldVariable
  else do
    let text ← (Template.render (isMarkup path) env text).mapError .template
    let document ← (Toml.read text).mapError (.document path)
    (ofValue document).mapError (.content path)

def ofFile (env : Template.Variables) (path : String) (content : FileContent) :
    Except ConfigFault Config :=
  match content with
  | .text text => read env text path
  | .absent => .error .noFile
  | .unreadable reason => .error (.unreadable reason)

end Config
end UtmTiles
