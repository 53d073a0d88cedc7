import SchemaModels.Build.Model
import SchemaModels.Build.Observer

/-!
Models from documents. Every definition has to be an object type, and the first
one that fails decides.
-/
namespace SchemaModels.Build

open Graphql (Definition Document)

/-- The model of a definition. -/
def definition (options : Options) : Definition → Except BuildError Model
  | .declaration _ (.object type) => model options type
  | other => .error (.unsupportedDefinition other.kind)

/-- The models of a document, in its order. -/
def document (options : Options) (document : Document) : Except BuildError (List Model) :=
  document.definitions.mapM (definition options)

/-- The models of a document, and what an observer holds in the end. -/
def observedDocument {σ : Type} (observer : Option (Observer σ)) (options : Options)
    (given : Document) (held : σ) : Except BuildError (List Model) × σ :=
  match document options given with
  | .error e => (.error e, held)
  | .ok models => (.ok models, Observer.tellModels observer held models)

end SchemaModels.Build
