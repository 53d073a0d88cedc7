import SchemaModels.Graphql.Kind
import SchemaModels.Number.Numeral

/-!
Why no models can be built from a document.
-/
namespace SchemaModels

open Graphql (Kind)

/-- The cause of a failure. A number that cannot be held is no fault of the
schema, so it stands apart from the others. -/
inductive BuildError where
  | unsupportedDefinition (kind : Kind)
  | notObjectType (kind : Kind)
  | notField (kind : Kind)
  | typeShape (kind : Kind)
  | directiveName (name : String)
  | missingSource (model : String)
  | unsupportedValue (kind : Kind)
  | numeral (error : NumeralError)
  deriving DecidableEq, Repr

namespace BuildError

/-- The words for a wrong node. -/
def wrongNode (expected : String) (kind : Kind) : String :=
  s!"Invalid definition node. Expected {expected} and received {kind.label}"

/-- The words for an error. -/
def message : BuildError → String
  | .unsupportedDefinition kind => "Unsupported definition type: " ++ kind.label
  | .notObjectType kind => wrongNode "ObjectTypeDefinition" kind
  | .notField kind => wrongNode "FieldDefinition" kind
  | .typeShape kind =>
    "Expected NamedType after unwrapping non-null and list wrappers, received " ++ kind.label
  | .directiveName name =>
    "Unknown directive @" ++ name ++ ", correct format is @<provider>_<name>"
  | .missingSource model => "Source not declared in model " ++ model
  | .unsupportedValue kind => "Value type " ++ kind.label ++ " not implemented"
  | .numeral error => error.message

end BuildError
end SchemaModels
