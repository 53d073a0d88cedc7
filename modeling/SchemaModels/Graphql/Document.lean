import SchemaModels.Graphql.Kind

/-!
Documents of the schema language as trees. Where a tree that was built by hand
has a node in a place that it does not belong in, its kind is all that is kept.
-/
namespace SchemaModels.Graphql

/-- What may be given as a value. Numbers keep the way they were written. -/
inductive Literal where
  | variable (name : String)
  | integer (lexeme : String)
  | float (lexeme : String)
  | text (value : String)
  | boolean (value : Bool)
  | null
  | enum (name : String)
  | list (items : List Literal)
  | object (fields : List (String × Literal))
  | other (kind : Kind)
  deriving Inhabited

def Literal.kind : Literal → Kind
  | .variable _ => .variable
  | .integer _ => .intValue
  | .float _ => .floatValue
  | .text _ => .stringValue
  | .boolean _ => .booleanValue
  | .null => .nullValue
  | .enum _ => .enumValue
  | .list _ => .listValue
  | .object _ => .objectValue
  | .other kind => kind

/-- A reference to a type by its name, with wrappers around it. -/
inductive TypeRef where
  | named (name : String)
  | list (item : TypeRef)
  | nonNull (inner : TypeRef)
  | other (kind : Kind)
  deriving Inhabited

def TypeRef.kind : TypeRef → Kind
  | .named _ => .namedType
  | .list _ => .listType
  | .nonNull _ => .nonNullType
  | .other kind => kind

/-- A directive as it is written, with its arguments in order. -/
structure AppliedDirective where
  name : String
  arguments : List (String × Literal)

/-- An argument of a field or a directive, or a field of an input type. -/
structure InputValue where
  description : Option String
  name : String
  type : TypeRef
  default : Option Literal
  directives : List AppliedDirective

structure FieldDefinition where
  description : Option String
  name : String
  arguments : List InputValue
  type : TypeRef
  directives : List AppliedDirective

/-- What stands among the fields of an object type. -/
inductive Member where
  | field (definition : FieldDefinition)
  | other (kind : Kind)

def Member.kind : Member → Kind
  | .field _ => .fieldDefinition
  | .other kind => kind

structure ObjectType where
  name : String
  interfaces : List String
  directives : List AppliedDirective
  fields : List Member

structure EnumValue where
  description : Option String
  name : String
  directives : List AppliedDirective

inductive OperationKind where
  | query
  | mutation
  | subscription
  deriving DecidableEq, Repr

/-- What an extension can add to, and a definition can define. -/
inductive Declaration where
  | schema (directives : List AppliedDirective) (operations : List (OperationKind × String))
  | scalar (name : String) (directives : List AppliedDirective)
  | object (type : ObjectType)
  | interface (type : ObjectType)
  | union (name : String) (directives : List AppliedDirective) (members : List String)
  | enum (name : String) (directives : List AppliedDirective) (values : List EnumValue)
  | input (name : String) (directives : List AppliedDirective) (fields : List InputValue)

structure DirectiveDefinition where
  name : String
  arguments : List InputValue
  directives : List AppliedDirective
  locations : List String

inductive Selection where
  | field (alternative : Option String) (name : String) (arguments : List (String × Literal))
      (directives : List AppliedDirective) (selections : Option (List Selection))
  | spread (name : String) (directives : List AppliedDirective)
  | inlined (condition : Option String) (directives : List AppliedDirective)
      (selections : List Selection)
  deriving Inhabited

structure VariableDefinition where
  description : Option String
  name : String
  type : TypeRef
  default : Option Literal
  directives : List AppliedDirective

structure Operation where
  description : Option String
  kind : OperationKind
  name : Option String
  parameters : List VariableDefinition
  directives : List AppliedDirective
  selections : List Selection

structure Fragment where
  description : Option String
  name : String
  condition : String
  directives : List AppliedDirective
  selections : List Selection

inductive Definition where
  | operation (operation : Operation)
  | fragment (fragment : Fragment)
  | declaration (description : Option String) (declared : Declaration)
  | directive (description : Option String) (directive : DirectiveDefinition)
  | extension (extended : Declaration)
  | other (kind : Kind)

namespace Declaration

/-- The kind of a definition. -/
def kind : Declaration → Kind
  | .schema .. => .schemaDefinition
  | .scalar .. => .scalarTypeDefinition
  | .object _ => .objectTypeDefinition
  | .interface _ => .interfaceTypeDefinition
  | .union .. => .unionTypeDefinition
  | .enum .. => .enumTypeDefinition
  | .input .. => .inputObjectTypeDefinition

/-- The kind of an extension. -/
def extensionKind : Declaration → Kind
  | .schema .. => .schemaExtension
  | .scalar .. => .scalarTypeExtension
  | .object _ => .objectTypeExtension
  | .interface _ => .interfaceTypeExtension
  | .union .. => .unionTypeExtension
  | .enum .. => .enumTypeExtension
  | .input .. => .inputObjectTypeExtension

/-- Whether anything is declared besides a name. -/
def hasContent : Declaration → Bool
  | .schema directives operations => !directives.isEmpty || !operations.isEmpty
  | .scalar _ directives => !directives.isEmpty
  | .object type | .interface type =>
    !type.interfaces.isEmpty || !type.directives.isEmpty || !type.fields.isEmpty
  | .union _ directives members => !directives.isEmpty || !members.isEmpty
  | .enum _ directives values => !directives.isEmpty || !values.isEmpty
  | .input _ directives fields => !directives.isEmpty || !fields.isEmpty

end Declaration

def Definition.kind : Definition → Kind
  | .operation _ => .operationDefinition
  | .fragment _ => .fragmentDefinition
  | .declaration _ declared => declared.kind
  | .directive .. => .directiveDefinition
  | .extension extended => extended.extensionKind
  | .other kind => kind

structure Document where
  definitions : List Definition

end SchemaModels.Graphql
