import SchemaModels.Graphql.Grammar.Value

/-!
Definitions of types, directives and schemas, and extensions of them.
-/
namespace SchemaModels.Graphql.Parser

/-- A default value, if there is one. -/
def defaultValue : Parser (Option Literal) := do
  if ← skip .equals then return some (← literal true maxDepth) else return none

def inputValue : Parser InputValue := do
  let description ← description
  let name ← name
  expect .colon
  let type ← typeRef maxDepth
  let default ← defaultValue
  return ⟨description, name, type, default, ← constantDirectives⟩

/-- The arguments that a field or a directive takes. -/
def argumentDefinitions : Parser (List InputValue) :=
  optionalMany .parenLeft .parenRight inputValue

def fieldDefinition : Parser FieldDefinition := do
  let description ← description
  let name ← name
  let arguments ← argumentDefinitions
  expect .colon
  let type ← typeRef maxDepth
  return ⟨description, name, arguments, type, ← constantDirectives⟩

/-- The interfaces of a type, if it has any. -/
def interfaces : Parser (List String) := do
  if ← skipKeyword "implements" then separated .ampersand name else return []

def objectType : Parser ObjectType := do
  let name ← name
  let interfaces ← interfaces
  let directives ← constantDirectives
  let fields ← optionalMany .braceLeft .braceRight (Member.field <$> fieldDefinition)
  return ⟨name, interfaces, directives, fields⟩

/-- The words that are no enum values. -/
def reservedWords : List String := ["true", "false", "null"]

def enumValue : Parser EnumValue := do
  let description ← description
  if let some token ← peek then
    if reservedWords.any fun word => token.value? == some word then
      throw (.reservedEnumValue token)
  let name ← name
  return ⟨description, name, ← constantDirectives⟩

/-- The operation that a word names. -/
def operationKind? (word : String) : Option OperationKind :=
  if word = "query" then some .query
  else if word = "mutation" then some .mutation
  else if word = "subscription" then some .subscription
  else none

/-- The name of an operation. -/
def operationKind : Parser OperationKind := do
  let token ← peek
  match operationKind? (← name) with
  | some kind => return kind
  | none => throw (.unexpected token)

/-- An operation with the type that answers it. -/
def operationType : Parser (OperationKind × String) := do
  let kind ← operationKind
  expect .colon
  return (kind, ← name)

/-- The types of a union, if they are given. -/
def unionMembers : Parser (List String) := do
  if ← skip .equals then separated .pipe name else return []

/-- What follows a word that begins a declaration. In an extension nothing has
to be given in braces. -/
def declaration? (word : String) (extending : Bool) : Option (Parser Declaration) :=
  if word = "schema" then
    some do
      let directives ← constantDirectives
      let given := if extending then optionalMany else many
      return .schema directives (← given .braceLeft .braceRight operationType)
  else if word = "scalar" then some do return .scalar (← name) (← constantDirectives)
  else if word = "type" then some do return .object (← objectType)
  else if word = "interface" then some do return .interface (← objectType)
  else if word = "union" then
    some do return .union (← name) (← constantDirectives) (← unionMembers)
  else if word = "enum" then
    some do
      return .enum (← name) (← constantDirectives)
        (← optionalMany .braceLeft .braceRight enumValue)
  else if word = "input" then
    some do
      return .input (← name) (← constantDirectives)
        (← optionalMany .braceLeft .braceRight inputValue)
  else none

/-- What follows the word for an extension. It has to add something. -/
def extension : Parser Declaration := do
  let word := match ← peek with
    | some (.name word) => word
    | _ => ""
  match declaration? word true with
  | none => unexpected
  | some parser =>
    advance
    let extended ← parser
    if extended.hasContent then return extended else unexpected

/-- The places where a directive may be put. -/
def directiveLocations : List String := ["QUERY", "MUTATION", "SUBSCRIPTION", "FIELD",
  "FRAGMENT_DEFINITION", "FRAGMENT_SPREAD", "INLINE_FRAGMENT", "VARIABLE_DEFINITION", "SCHEMA",
  "SCALAR", "OBJECT", "FIELD_DEFINITION", "ARGUMENT_DEFINITION", "INTERFACE", "UNION", "ENUM",
  "ENUM_VALUE", "INPUT_OBJECT", "INPUT_FIELD_DEFINITION", "DIRECTIVE_DEFINITION"]

def directiveLocation : Parser String := do
  let token ← peek
  let location ← name
  if directiveLocations.contains location then return location else throw (.unexpected token)

/-- What follows the word for the definition of a directive. -/
def directiveDefinition : Parser DirectiveDefinition := do
  expect .at
  let name ← name
  let arguments ← argumentDefinitions
  let directives ← constantDirectives
  let _ ← skipKeyword "repeatable"
  keyword "on"
  return ⟨name, arguments, directives, ← separated .pipe directiveLocation⟩

end SchemaModels.Graphql.Parser
