import SchemaModels.Build.Error
import SchemaModels.Files.TextFile
import SchemaModels.Graphql.SyntaxError

/-!
Why schema texts or files give no models.
-/
namespace SchemaModels

/-- A failure that is reported with the place where it happened. -/
inductive IntrospectionError where
  | reading (path : Path) (error : ReadingError)
  | parsing (label : String) (error : Graphql.SyntaxError)
  | building (label : String) (error : BuildError)

namespace IntrospectionError

/-- The words for a text that gives no models. -/
def aboutText (label reason : String) : String :=
  "Error parsing graphql document '" ++ label ++ "': " ++ reason

/-- The words for an error. -/
def message : IntrospectionError → String
  | .reading path error => "Cannot read schema file '" ++ path.text ++ "': " ++ error.message
  | .parsing label error => aboutText label error.message
  | .building label error => aboutText label error.message

/-- The path that a label stands for. Labels of texts from elsewhere begin with
an angle bracket. -/
def pathOfLabel? (label : String) : Option Path :=
  if label.startsWith "<" then none else some (Path.ofText label)

/-- The file that an error is about. -/
def path? : IntrospectionError → Option Path
  | .reading path _ => some path
  | .parsing label _ => pathOfLabel? label
  | .building label _ => pathOfLabel? label

end IntrospectionError

/-- Every way to fail. Numbers that cannot be held, bytes of which none in particular is at
fault, encodings that cannot be looked up and paths that are none are not reported like the
others. -/
inductive IntrospectionFailure where
  | reported (error : IntrospectionError)
  | numeral (error : NumeralError)
  | text (error : TextError)
  | file (error : FileError)

namespace IntrospectionFailure

/-- The failure of building models from a text. -/
def ofBuilding (label : String) : BuildError → IntrospectionFailure
  | .numeral error => .numeral error
  | error => .reported (.building label error)

/-- The failure of reading a file. -/
def ofReading (path : Path) : ReadingError → IntrospectionFailure
  | .text (.undivided message) => .text (.undivided message)
  | .text .nullInName => .text .nullInName
  | .text error => .reported (.reading path (.text error))
  | .file error => if error.isReported then .reported (.reading path (.file error)) else .file error

end IntrospectionFailure
end SchemaModels
