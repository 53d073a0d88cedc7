import SchemaModels.Build.Document
import SchemaModels.Graphql.Node

/-!
Building from single nodes. A node of a wrong kind is refused with its kind.
-/
namespace SchemaModels.Build

open Graphql (AppliedDirective Node)

/-- The model of a node that should be an object type. -/
def modelOfNode (options : Options) : Node → Except BuildError Model
  | .definition (.declaration _ (.object type)) => model options type
  | node => .error (.notObjectType node.kind)

/-- The field of a node that should be a field definition. -/
def fieldOfNode (options : Options) (node : Node) : Except BuildError Field :=
  field options node.toMember

/-- The value of a node that should be a literal. -/
def valueOfNode (node : Node) : Except BuildError Value := value node.toLiteral

/-- The shape of a node that should be a type. -/
def shapeOfNode (defaultSource : Option String) (node : Node) : Except BuildError FieldShape :=
  fieldShape defaultSource node.toType

end SchemaModels.Build
