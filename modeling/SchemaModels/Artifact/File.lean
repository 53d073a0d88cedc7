import SchemaModels.Artifact.Decode
import SchemaModels.Files.TextFile

/-!
Artifacts in files, which are text in UTF-8.
-/
namespace SchemaModels.Artifact

/-- Why a file gives no models. -/
inductive LoadError where
  | file (error : ReadingError)
  | content (error : ReadError)

/-- The tree with the artifact of some models in a file. Missing directories are
made. -/
def save {τ : Type} [Coded τ] (tree : FileTree) (path : Path) (models : List (Model τ)) :
    FileTree × Option FileError :=
  tree.writeBelow path (utf8Bytes (write models))

/-- The models of an artifact in a file. -/
def load (tree : FileTree) (path : Path) : Except LoadError (List (Model CodeText)) :=
  match tree.readText path (Encoding.decode · .utf8) with
  | .error e => .error (.file e)
  | .ok text => (read text).mapError .content

end SchemaModels.Artifact
