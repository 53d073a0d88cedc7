import SchemaModels.Command.Flag

/-!
The lines that explain the program and its commands.
-/
namespace SchemaModels.Command

/-- The name under which a scope reports errors. -/
def Scope.title : Scope → String
  | none => "gqlmodel"
  | some verb => "gqlmodel " ++ verb.name

/-- How the arguments of a scope are written. -/
def Scope.usage : Scope → String
  | none => "usage: gqlmodel [-h] COMMAND ..."
  | some .init => "usage: gqlmodel init [-h] [directory]"
  | some .check => "usage: gqlmodel check [-h] [--verbose] [directory]"
  | some .introspect =>
    "usage: gqlmodel introspect [-h] [--output OUTPUT] [--verbose] [directory]"

/-- What a scope is for, and its arguments. -/
def Scope.description : Scope → List String
  | none => [
    "GqlModel - build data models from GraphQL schema files",
    "",
    "positional arguments:",
    "  COMMAND",
    "    init      Create a project configuration file",
    "    check     Check that the schema files build into models",
    "    introspect",
    "              Write the models as a JSON artifact",
    "",
    "options:",
    "  -h, --help  show this help message and exit"]
  | some .init => [
    "Write a starter .gqlmodel.yaml into a directory.",
    "",
    "positional arguments:",
    "  directory   Directory to initialize (default: current directory)",
    "",
    "options:",
    "  -h, --help  show this help message and exit"]
  | some .check => [
    "Introspect the configured schema files and summarize the resulting models.",
    "",
    "positional arguments:",
    "  directory   Directory containing the project configuration (default: current",
    "              directory)",
    "",
    "options:",
    "  -h, --help  show this help message and exit",
    "  --verbose   Log progress per file and model"]
  | some .introspect => [
    "Introspect the configured schema files and write the models as JSON.",
    "",
    "positional arguments:",
    "  directory             Directory containing the project configuration",
    "                        (default: current directory)",
    "",
    "options:",
    "  -h, --help            show this help message and exit",
    "  --output OUTPUT, -o OUTPUT",
    "                        Artifact path (default: the configured output, else",
    "                        standard output)",
    "  --verbose             Log progress per file and model"]

/-- The help of a scope. -/
def Scope.help (scope : Scope) : List String := scope.usage :: "" :: scope.description

/-- The lines for wrong arguments. -/
def Scope.complaint (scope : Scope) (error : UsageError) : List String :=
  [scope.usage, scope.title ++ ": error: " ++ error.message]

end SchemaModels.Command
