/-!
The kinds of the nodes of a document, with the names that messages use.
-/
namespace SchemaModels.Graphql

inductive Kind where
  | name
  | document
  | operationDefinition
  | variableDefinition
  | selectionSet
  | field
  | argument
  | fragmentSpread
  | inlineFragment
  | fragmentDefinition
  | variable
  | intValue
  | floatValue
  | stringValue
  | booleanValue
  | nullValue
  | enumValue
  | listValue
  | objectValue
  | objectField
  | directive
  | namedType
  | listType
  | nonNullType
  | schemaDefinition
  | operationTypeDefinition
  | scalarTypeDefinition
  | objectTypeDefinition
  | fieldDefinition
  | inputValueDefinition
  | interfaceTypeDefinition
  | unionTypeDefinition
  | enumTypeDefinition
  | enumValueDefinition
  | inputObjectTypeDefinition
  | directiveDefinition
  | schemaExtension
  | scalarTypeExtension
  | objectTypeExtension
  | interfaceTypeExtension
  | unionTypeExtension
  | enumTypeExtension
  | inputObjectTypeExtension
  deriving DecidableEq, Repr

namespace Kind

/-- All kinds. -/
def all : List Kind := [.name, .document, .operationDefinition, .variableDefinition,
  .selectionSet, .field, .argument, .fragmentSpread, .inlineFragment, .fragmentDefinition,
  .variable, .intValue, .floatValue, .stringValue, .booleanValue, .nullValue, .enumValue,
  .listValue, .objectValue, .objectField, .directive, .namedType, .listType, .nonNullType,
  .schemaDefinition, .operationTypeDefinition, .scalarTypeDefinition, .objectTypeDefinition,
  .fieldDefinition, .inputValueDefinition, .interfaceTypeDefinition, .unionTypeDefinition,
  .enumTypeDefinition, .enumValueDefinition, .inputObjectTypeDefinition, .directiveDefinition,
  .schemaExtension, .scalarTypeExtension, .objectTypeExtension, .interfaceTypeExtension,
  .unionTypeExtension, .enumTypeExtension, .inputObjectTypeExtension]

/-- The name of a kind. -/
def label : Kind → String
  | .name => "name"
  | .document => "document"
  | .operationDefinition => "operation_definition"
  | .variableDefinition => "variable_definition"
  | .selectionSet => "selection_set"
  | .field => "field"
  | .argument => "argument"
  | .fragmentSpread => "fragment_spread"
  | .inlineFragment => "inline_fragment"
  | .fragmentDefinition => "fragment_definition"
  | .variable => "variable"
  | .intValue => "int_value"
  | .floatValue => "float_value"
  | .stringValue => "string_value"
  | .booleanValue => "boolean_value"
  | .nullValue => "null_value"
  | .enumValue => "enum_value"
  | .listValue => "list_value"
  | .objectValue => "object_value"
  | .objectField => "object_field"
  | .directive => "directive"
  | .namedType => "named_type"
  | .listType => "list_type"
  | .nonNullType => "non_null_type"
  | .schemaDefinition => "schema_definition"
  | .operationTypeDefinition => "operation_type_definition"
  | .scalarTypeDefinition => "scalar_type_definition"
  | .objectTypeDefinition => "object_type_definition"
  | .fieldDefinition => "field_definition"
  | .inputValueDefinition => "input_value_definition"
  | .interfaceTypeDefinition => "interface_type_definition"
  | .unionTypeDefinition => "union_type_definition"
  | .enumTypeDefinition => "enum_type_definition"
  | .enumValueDefinition => "enum_value_definition"
  | .inputObjectTypeDefinition => "input_object_type_definition"
  | .directiveDefinition => "directive_definition"
  | .schemaExtension => "schema_extension"
  | .scalarTypeExtension => "scalar_type_extension"
  | .objectTypeExtension => "object_type_extension"
  | .interfaceTypeExtension => "interface_type_extension"
  | .unionTypeExtension => "union_type_extension"
  | .enumTypeExtension => "enum_type_extension"
  | .inputObjectTypeExtension => "input_object_type_extension"

def ofLabel? (label : String) : Option Kind := all.find? fun kind => kind.label == label

end Kind
end SchemaModels.Graphql
