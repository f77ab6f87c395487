import UtmTiles.Service.Basic
import UtmTiles.Text.Blank

/-!
# Where shapes come from

A shape is given as the text of a document, which starts with a brace, as `-` for the program's
input, or as the path of a file.
-/

namespace UtmTiles

/-- Where the text of a shape comes from. -/
inductive ShapeSource where
  | inline (text : String)
  | input
  | file (path : String)
  deriving DecidableEq, Repr

namespace ShapeSource

def ofText (text : String) : ShapeSource :=
  if (Text.trimStart text.toList).head? = some '\x7b' then .inline text
  else if text = "-" then .input
  else .file text

/-- The shape of a source, once its content has been read. A text needs no reading. -/
def shape (source : ShapeSource) (content : FileContent) : Except ServiceFault Shape :=
  match source, content with
  | .inline text, _ => .ok (.text text)
  | _, .text text => .ok (.text text)
  | .input, .unreadable reason => .error (.unreadableInput reason)
  | .input, .absent => .ok (.text "")
  | .file path, .absent => .error (.noShapeFile path)
  | .file _, .unreadable reason => .error (.unreadableShape reason)

end ShapeSource

/-- The source of the shape to be covered: the given one, or else the configured one. -/
def Service.shapeSource (s : Service) (source : Option String) : Except ServiceFault ShapeSource :=
  match source <|> s.tiling.shape with
  | some text => .ok (.ofText text)
  | none => .error .noShape

end UtmTiles
