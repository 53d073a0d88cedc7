import SchemaModels.Artifact.File
import SchemaModels.Command.Help
import SchemaModels.Command.Request
import SchemaModels.Project.Load

/-!
What the commands do to a tree of files, and what they print. Errors that are
foreseen are one line each and end with code one. All else is done before the first
line is printed, so a line that cannot be printed ends a run that has changed files.
-/
namespace SchemaModels.Command

/-- An error that a task reports. -/
inductive TaskError where
  | noDirectory (directory : Path)
  | configured (file : Path)
  | noProject (directory : Path)
  | config (error : ConfigError)
  | introspection (error : IntrospectionError)
  | artifact (path : Path) (error : FileError)

/-- The words for an error. -/
def TaskError.message : TaskError → String
  | .noDirectory directory => "directory '" ++ directory.text ++ "' does not exist."
  | .configured file => "configuration already exists at '" ++ file.text ++ "'."
  | .noProject directory =>
    "no GqlModel project found at '" ++ directory.text ++ "'. Run 'gqlmodel init' to create one."
  | .config error => error.message
  | .introspection error => error.message
  | .artifact path error => "cannot write artifact '" ++ path.text ++ "': " ++ error.message

/-- An error that no task foresees. -/
inductive Breakdown where
  | file (error : FileError)
  | scalar (error : Yaml.Error)
  | text (error : TextError)
  | numeral (error : NumeralError)

/-- Why a task ends early. -/
inductive Failure where
  | reported (error : TaskError)
  | broken (breakdown : Breakdown)

namespace Failure

def ofConfig : ConfigFailure → Failure
  | .reported error => .reported (.config error)
  | .scalar error => .broken (.scalar error)
  | .text error => .broken (.text error)
  | .file error => .broken (.file error)

def ofIntrospection : IntrospectionFailure → Failure
  | .reported error => .reported (.introspection error)
  | .numeral error => .broken (.numeral error)
  | .text error => .broken (.text error)
  | .file error => .broken (.file error)

/-- The failure of writing an artifact. -/
def ofArtifact (path : Path) (error : FileError) : Failure :=
  if error.isReported then .reported (.artifact path error) else .broken (.file error)

end Failure

/-- How a run ends. -/
inductive Ending where
  | code (code : Nat)
  | broken (breakdown : Breakdown)
  /-- A line cannot be printed, as no task foresees either. -/
  | unprinted (message : String)

/-- The files after a run, the lines that it prints, and its end. -/
structure Outcome where
  tree : FileTree
  printed : List String
  errors : List String
  ending : Ending

namespace Outcome

/-- A run that ends well. -/
def success (tree : FileTree) (errors printed : List String) : Outcome :=
  ⟨tree, printed, errors, .code 0⟩

/-- A run that ends with a failure. -/
def failure (tree : FileTree) (errors : List String) : Failure → Outcome
  | .reported error => ⟨tree, [], errors ++ ["Error: " ++ error.message], .code 1⟩
  | .broken breakdown => ⟨tree, [], errors, .broken breakdown⟩

end Outcome

/-- Whether there is a null on the way to the directory that a text names. -/
def nullOnWay (tree : FileTree) (text : String) : Bool :=
  (Path.ofText text).hasNull || (Path.resolve tree.working (Path.ofText text)).hasNull

/-- The directory that a text names, which has to be there. -/
def directoryAt (tree : FileTree) (text : String) : Except Failure Path :=
  let directory := Path.resolve tree.working (Path.ofText text)
  if nullOnWay tree text then .error (.broken (.file ⟨.nullInPath, directory.text⟩))
  else if tree.exists? directory.text then .ok directory
  else .error (.reported (.noDirectory directory))

/-- The place of the configuration of a directory. -/
def configFile (directory : Path) : Path := directory.join (Path.ofText Config.fileName)

/-- The directory of a project, and its configuration. -/
def projectAt (platform : Platform) (tree : FileTree) (text : String) :
    Except Failure (Path × Config) := do
  let directory ← directoryAt tree text
  let file := configFile directory
  if tree.exists? file.text then
    match Config.load platform tree file with
    | .ok config => return (directory, config)
    | .error e => throw (.ofConfig e)
  else throw (.reported (.noProject directory))

/-- The tree with a first configuration, and where it is. -/
def startProject (tree : FileTree) (text : String) : Except Failure (FileTree × Path) := do
  let directory ← directoryAt tree text
  let file := configFile directory
  if tree.exists? file.text then throw (.reported (.configured file))
  match tree.write file (utf8Bytes (Config.starter Config.starterPattern)) with
  | .ok written => return (written, file)
  | .error e => throw (.broken (.file e))

/-- The line for an event. -/
def eventLine (event : Event) : String := "INFO gqlmodel.compiler.observer: " ++ event.message

/-- The lines about the events of a run, if they are wanted. -/
def eventLines (verbose : Bool) (run : Run) : List String :=
  if verbose then run.events.map eventLine else []

/-- Runs a project and goes on with its models. -/
def withModels (platform : Platform) (tree : FileTree) (directory : String) (verbose : Bool)
    (next : Path → Config → List String → List Model → Outcome) : Outcome :=
  match projectAt platform tree directory with
  | .error failure => .failure tree [] failure
  | .ok (root, config) =>
    let run := introspect tree (config.toOptions root) platform.codecs
    match run.outcome with
    | .error failure => .failure tree (eventLines verbose run) (.ofIntrospection failure)
    | .ok models => next root config (eventLines verbose run) models

/-- A model in one line. -/
def modelLine (model : Model) : String :=
  model.name ++ " [" ++ model.source ++ "]: " ++
    s!"{model.fields.length} field(s), {model.relations} relation(s)"

/-- The lines about some models. -/
def summary : List Model → List String
  | [] => ["No models found."]
  | models => models.map modelLine ++ [s!"Checked {models.length} model(s)."]

/-- The line about a file that some models were written to. -/
def writtenLine (count : Nat) (path : Path) : String :=
  s!"Wrote {count} model(s) to '" ++ path.text ++ "'."

/-- Writes the artifact of some models to a file. -/
def writeModels (tree : FileTree) (errors : List String) (path : Path) (models : List Model) :
    Outcome :=
  match Artifact.save tree path models with
  | (left, some e) => .failure left errors (.ofArtifact path e)
  | (written, none) =>
    .success written errors [writtenLine models.length path]

/-- Does a task. -/
def perform (platform : Platform) (tree : FileTree) : Task → Outcome
  | .init directory =>
    match startProject tree directory with
    | .error failure => .failure tree [] failure
    | .ok (written, file) =>
      .success written [] ["Initialized GqlModel project at '" ++ file.text ++ "'."]
  | .check directory verbose =>
    withModels platform tree directory verbose fun _ _ errors models =>
      .success tree errors (summary models)
  | .introspect directory output verbose =>
    withModels platform tree directory verbose fun root config errors models =>
      match output.or config.output with
      | none => .success tree errors [Artifact.write models]
      | some target => writeModels tree errors (root.join (Path.ofText target)) models

/-- Does what some arguments ask for, if every line can be printed. -/
def run (platform : Platform) (tree : FileTree) (arguments : List String) : Outcome :=
  match Request.read arguments with
  | .help scope => .success tree [] scope.help
  | .misuse scope error => ⟨tree, [], scope.complaint error, .code 2⟩
  | .task task => perform platform tree task

/-- What prints lines. It may have no bytes for a line, which it then objects to. -/
abbrev Printer := String → Option String

/-- The printer that has bytes for every line. -/
def Printer.unlimited : Printer := fun _ => none

/-- The lines that are printed, and the objection to the one after them. -/
def Printer.print (printer : Printer) : List String → List String × Option String
  | [] => ([], none)
  | line :: rest =>
    match printer line with
    | some message => ([], some message)
    | none => (line :: (printer.print rest).1, (printer.print rest).2)

/-- An outcome whose lines go to a printer. -/
def Outcome.printedBy (outcome : Outcome) (printer : Printer) : Outcome :=
  match printer.print outcome.printed with
  | (_, none) => outcome
  | (printed, some message) => { outcome with printed := printed, ending := .unprinted message }

/-- Does what some arguments ask for, and prints the lines about it. -/
def runOn (printer : Printer) (platform : Platform) (tree : FileTree)
    (arguments : List String) : Outcome :=
  (run platform tree arguments).printedBy printer

end SchemaModels.Command
