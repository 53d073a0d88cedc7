import SchemaModels.Project.Config
import SchemaModels.Yaml.Writer

/-!
Configurations from texts and files, and the text of a first one.
-/
namespace SchemaModels

/-- A failure that is reported. -/
inductive ConfigError where
  | notFound (path : Path)
  | unreadable (error : FileError)
  | invalidYaml (label : String)
  | notMapping (label : String)
  | invalid (label : String) (faults : List Fault)

/-- The words for an error, up to the label. -/
def ConfigError.message : ConfigError → String
  | .notFound path => "Config file not found: " ++ path.text
  | .unreadable error => "Cannot read config file: " ++ error.message
  | .invalidYaml label => "Invalid YAML in " ++ label
  | .notMapping label => label ++ ": config must be a YAML mapping"
  | .invalid label _ => "Invalid config " ++ label

/-- Every way to fail. A reader of YAML that fails otherwise than over the notation, text that
is not UTF-8 and a path that is none are not reported like the others. -/
inductive ConfigFailure where
  | reported (error : ConfigError)
  | scalar (error : Yaml.Error)
  | text (error : TextError)
  | file (error : FileError)

namespace Config

/-- The name of the file that holds a configuration. -/
def fileName : String := ".gqlmodel.yaml"

/-- The configuration that a text writes. -/
def parse (platform : Platform) (label text : String) : Except ConfigFailure Config :=
  match platform.readYaml text with
  | .error .malformed => .error (.reported (.invalidYaml label))
  | .error e => .error (.scalar e)
  | .ok (.mapping entries) =>
    (check platform entries).toExcept fun faults => .reported (.invalid label faults)
  | .ok _ => .error (.reported (.notMapping label))

/-- The configuration in a file. -/
def load (platform : Platform) (tree : FileTree) (path : Path) : Except ConfigFailure Config :=
  match tree.readText path (Encoding.decode · .utf8) with
  | .ok text => parse platform path.text text
  | .error (.text e) => .error (.text e)
  | .error (.file e) =>
    if e.fault = .missing then .error (.reported (.notFound path))
    else if e.isReported then .error (.reported (.unreadable e))
    else .error (.file e)

/-- The pattern of a first configuration. -/
def starterPattern : String := "schema/**/*.graphql"

/-- The text of a first configuration. -/
def starter (pattern : String) : String :=
  "# GqlModel project configuration\n" ++ Yaml.Writer.writeEntry "path" pattern ++
    Yaml.Writer.writeEntry "encoding" "utf-8" ++
    Yaml.Writer.writeEntry "directive-naming" Naming.plain.label

end Config
end SchemaModels
