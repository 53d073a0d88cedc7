import SchemaModels.Build.Document
import SchemaModels.Graphql.Parser
import SchemaModels.Introspection.Error
import SchemaModels.Introspection.Listing

/-!
Models from texts, from files, and from all files that patterns select. The
first failure ends a run.
-/
namespace SchemaModels

/-- What a run needs to know. -/
structure RunOptions where
  patterns : List String
  encoding : String
  defaultSource : Option String
  naming : Naming

def RunOptions.building (options : RunOptions) : Build.Options :=
  ⟨options.defaultSource, options.naming⟩

/-- The models of what was introspected, or the failure. -/
abbrev Introspected := Except IntrospectionFailure (List Model)

section

variable {σ : Type} (observer : Option (Observer σ))

/-- The models of a text, and what an observer holds in the end. -/
def observedText (options : Build.Options) (label content : String) (held : σ) :
    Introspected × σ :=
  match Graphql.Document.parse content with
  | .error e => (.error (.reported (.parsing label e)), held)
  | .ok document =>
    match Build.observedDocument observer options document held with
    | (.error e, held) => (.error (.ofBuilding label e), held)
    | (.ok models, held) => (.ok models, held)

/-- The models of a file, and what an observer holds in the end. -/
def observedFile (tree : FileTree) (options : RunOptions) (path : Path) (held : σ)
    (codecs : Codecs) : Introspected × σ :=
  match tree.readText path (codecs.decoder options.encoding) with
  | .error e => (.error (.ofReading path e), held)
  | .ok content => observedText observer options.building path.text content held

/-- Some files, one after the other. `output` are the models so far. -/
def observedFiles (tree : FileTree) (options : RunOptions) :
    List Path → List Model → σ → Codecs → Introspected × σ
  | [], output, held, _ => (.ok output, held)
  | path :: rest, output, held, codecs =>
    match observedFile observer tree options path (Observer.tellFile observer held path) codecs with
    | (.error e, held) => (.error e, held)
    | (.ok models, held) => observedFiles tree options rest (output ++ models) held codecs

/-- All files that the patterns select. -/
def observedRun (tree : FileTree) (options : RunOptions) (held : σ) (codecs : Codecs) :
    Introspected × σ :=
  match findSchemaFiles tree options.patterns with
  | .error e => (.error (.file e), held)
  | .ok paths => observedFiles observer tree options paths [] held codecs

end

/-- Nobody, where no observer is wanted. -/
def unobserved : Option (Observer Unit) := none

/-- The models of a text. -/
def introspectText (options : Build.Options) (label content : String) : Introspected :=
  (observedText unobserved options label content ()).1

/-- The models of a file. -/
def introspectFile (tree : FileTree) (options : RunOptions) (path : Path) (codecs : Codecs) :
    Introspected :=
  (observedFile unobserved tree options path () codecs).1

/-- The events of a run up to its end, and the models or the failure. -/
structure Run where
  events : List Event
  outcome : Introspected

/-- All files that the patterns select, with the events. -/
def introspect (tree : FileTree) (options : RunOptions) (codecs : Codecs) : Run :=
  let (outcome, events) := observedRun (some Observer.recorder) tree options [] codecs
  ⟨events, outcome⟩

end SchemaModels
