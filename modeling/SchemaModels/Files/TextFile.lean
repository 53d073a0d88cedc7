import SchemaModels.Files.Encoding
import SchemaModels.Files.Tree
import SchemaModels.Text.Blank

/-!
Files of text. All line ends count as line feeds.
-/
namespace SchemaModels

/-- Why the text of a file cannot be had. -/
inductive ReadingError where
  | file (error : FileError)
  | text (error : TextError)
  deriving DecidableEq, Repr

/-- The words for an error. -/
def ReadingError.message : ReadingError → String
  | .file error => error.message
  | .text error => error.message

namespace FileTree

/-- The text of a file. Which bytes are text is left to a decoder. -/
def readText (tree : FileTree) (path : Path) (decode : Decoder) : Except ReadingError String :=
  match tree.read path with
  | .error e => .error (.file e)
  | .ok bytes =>
    match decode bytes with
    | .error e => .error (.text e)
    | .ok chars => .ok (String.ofList (Text.unifyNewlines chars))

end FileTree
end SchemaModels
