import SchemaModels.Graphql.Document

/-!
The nodes of a document, all of one type, and the ways from each to those below
it. A way is a list of attribute names and of positions in lists.
-/
namespace SchemaModels.Graphql

inductive Node where
  | document (document : Document)
  | definition (definition : Definition)
  | member (member : Member)
  | inputValue (value : InputValue)
  | enumValue (value : EnumValue)
  | directive (directive : AppliedDirective)
  | argument (name : String) (value : Literal)
  | objectField (name : String) (value : Literal)
  | literal (literal : Literal)
  | type (type : TypeRef)
  | operationType (kind : OperationKind) (type : String)
  | variableDefinition (definition : VariableDefinition)
  | selectionSet (selections : List Selection)
  | selection (selection : Selection)
  | name (name : String)

namespace Node

def kind : Node → Kind
  | .document _ => .document
  | .definition d => d.kind
  | .member m => m.kind
  | .inputValue _ => .inputValueDefinition
  | .enumValue _ => .enumValueDefinition
  | .directive _ => .directive
  | .argument .. => .argument
  | .objectField .. => .objectField
  | .literal l => l.kind
  | .type t => t.kind
  | .operationType .. => .operationTypeDefinition
  | .variableDefinition _ => .variableDefinition
  | .selectionSet _ => .selectionSet
  | .selection (.field ..) => .field
  | .selection (.spread ..) => .fragmentSpread
  | .selection (.inlined ..) => .inlineFragment
  | .name _ => .name

/-- A node in the place of a literal. -/
def toLiteral : Node → Literal
  | .literal l => l
  | node => .other node.kind

/-- A node in the place of a type. -/
def toType : Node → TypeRef
  | .type t => t
  | node => .other node.kind

/-- A node in the place of a field of an object type. -/
def toMember : Node → Member
  | .member m => m
  | node => .other node.kind

/-- A node in the place of a definition. -/
def toDefinition : Node → Definition
  | .definition d => d
  | node => .other node.kind

/-- What can stand for a directive: a name with arguments. -/
def toDirective? : Node → Option AppliedDirective
  | .directive a => some a
  | .selection (.field _ key arguments _ _) => some ⟨key, arguments⟩
  | _ => none

end Node

/-- What an attribute of a node holds. -/
inductive Attribute where
  | node (node : Node)
  | nodes (nodes : List Node)

/-- A step down from a node or a list of nodes. -/
inductive Step where
  | attribute (name : String)
  | position (index : Nat)

namespace Attribute

def ofName (name : String) : Attribute := .node (.name name)

def ofNames (names : List String) : Attribute := .nodes (names.map .name)

def ofType (name : String) : Attribute := .node (.type (.named name))

def ofTypes (names : List String) : Attribute :=
  .nodes (names.map fun name => .type (.named name))

def ofDirectives (directives : List AppliedDirective) : Attribute :=
  .nodes (directives.map .directive)

def ofArguments (arguments : List (String × Literal)) : Attribute :=
  .nodes (arguments.map fun argument => .argument argument.1 argument.2)

def ofSelections (selections : List Selection) : Attribute := .node (.selectionSet selections)

/-- The attribute of a description, where there is one. -/
def ofDescription (description : Option String) : List (String × Attribute) :=
  match description with
  | some text => [("description", .node (.literal (.text text)))]
  | none => []

/-- The attribute of a default value, where there is one. -/
def ofDefault (default : Option Literal) : List (String × Attribute) :=
  match default with
  | some literal => [("default_value", .node (.literal literal))]
  | none => []

end Attribute

open Attribute

/-- The attributes of a literal that hold nodes. -/
def Literal.attributes : Literal → List (String × Attribute)
  | .variable name => [("name", ofName name)]
  | .list items => [("values", .nodes (items.map .literal))]
  | .object fields =>
    [("fields", .nodes (fields.map fun field => .objectField field.1 field.2))]
  | _ => []

def TypeRef.attributes : TypeRef → List (String × Attribute)
  | .named name => [("name", ofName name)]
  | .list item => [("type", .node (.type item))]
  | .nonNull inner => [("type", .node (.type inner))]
  | .other _ => []

def ObjectType.attributes (type : ObjectType) : List (String × Attribute) :=
  [("name", ofName type.name), ("interfaces", ofTypes type.interfaces),
    ("directives", ofDirectives type.directives), ("fields", .nodes (type.fields.map .member))]

def Declaration.attributes : Declaration → List (String × Attribute)
  | .schema directives operations =>
    [("directives", ofDirectives directives),
      ("operation_types", .nodes (operations.map fun (kind, type) => .operationType kind type))]
  | .scalar name directives =>
    [("name", ofName name), ("directives", ofDirectives directives)]
  | .object type | .interface type => type.attributes
  | .union name directives members =>
    [("name", ofName name), ("directives", ofDirectives directives), ("types", ofTypes members)]
  | .enum name directives values =>
    [("name", ofName name), ("directives", ofDirectives directives),
      ("values", .nodes (values.map .enumValue))]
  | .input name directives fields =>
    [("name", ofName name), ("directives", ofDirectives directives),
      ("fields", .nodes (fields.map .inputValue))]

def Operation.attributes (operation : Operation) : List (String × Attribute) :=
  ofDescription operation.description ++
    (match operation.name with
      | some name => [("name", ofName name)]
      | none => []) ++
    [("variable_definitions", .nodes (operation.parameters.map .variableDefinition)),
      ("directives", ofDirectives operation.directives),
      ("selection_set", ofSelections operation.selections)]

def Definition.attributes : Definition → List (String × Attribute)
  | .operation o => o.attributes
  | .fragment f =>
    ofDescription f.description ++
      [("name", ofName f.name), ("type_condition", ofType f.condition),
        ("directives", ofDirectives f.directives),
        ("selection_set", ofSelections f.selections)]
  | .declaration description declared => ofDescription description ++ declared.attributes
  | .directive description d =>
    ofDescription description ++
      [("name", ofName d.name),
        ("arguments", .nodes (d.arguments.map .inputValue)),
        ("directives", ofDirectives d.directives),
        ("locations", ofNames d.locations)]
  | .extension d => d.attributes
  | .other _ => []

def Selection.attributes : Selection → List (String × Attribute)
  | .field alternative name arguments directives selections =>
    (match alternative with
      | some other => [("alias", ofName other)]
      | none => []) ++
      [("name", ofName name), ("arguments", ofArguments arguments),
        ("directives", ofDirectives directives)] ++
      (match selections with
        | some inner => [("selection_set", ofSelections inner)]
        | none => [])
  | .spread name directives =>
    [("name", ofName name), ("directives", ofDirectives directives)]
  | .inlined condition directives selections =>
    (match condition with
      | some type => [("type_condition", ofType type)]
      | none => []) ++
      [("directives", ofDirectives directives), ("selection_set", ofSelections selections)]

namespace Node

/-- The attributes of a node that hold nodes. -/
def attributes : Node → List (String × Attribute)
  | .document d => [("definitions", .nodes (d.definitions.map .definition))]
  | .definition d => d.attributes
  | .member (.field field) =>
    ofDescription field.description ++
      [("name", ofName field.name), ("arguments", .nodes (field.arguments.map .inputValue)),
        ("type", .node (.type field.type)), ("directives", ofDirectives field.directives)]
  | .member (.other _) => []
  | .inputValue value =>
    ofDescription value.description ++
      [("name", ofName value.name), ("type", .node (.type value.type)),
        ("directives", ofDirectives value.directives)] ++ ofDefault value.default
  | .enumValue value =>
    ofDescription value.description ++
      [("name", ofName value.name), ("directives", ofDirectives value.directives)]
  | .directive a => [("name", ofName a.name), ("arguments", ofArguments a.arguments)]
  | .argument key value | .objectField key value =>
    [("name", ofName key), ("value", .node (.literal value))]
  | .literal l => l.attributes
  | .type t => t.attributes
  | .operationType _ answer => [("type", ofType answer)]
  | .variableDefinition d =>
    ofDescription d.description ++
      [("variable", .node (.literal (.variable d.name))),
        ("type", .node (.type d.type)),
        ("directives", ofDirectives d.directives)] ++ ofDefault d.default
  | .selectionSet selections => [("selections", .nodes (selections.map .selection))]
  | .selection s => s.attributes
  | .name _ => []

end Node

/-- Where some steps lead, if each of them can be taken. -/
def Attribute.walk? : Attribute → List Step → Option Node
  | .node n, [] => some n
  | .node n, .attribute name :: rest => do (← n.attributes.lookup name).walk? rest
  | .nodes list, .position index :: rest => do (Attribute.node (← list[index]?)).walk? rest
  | _, _ => none

end SchemaModels.Graphql
