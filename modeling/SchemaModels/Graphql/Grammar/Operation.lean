import SchemaModels.Graphql.Grammar.Declaration

/-!
Operations and fragments. A schema has neither, but a document may.
-/
namespace SchemaModels.Graphql.Parser

/-- The name of a fragment, which is never the word for a condition. -/
def fragmentName : Parser String := do
  if ((← peek).bind (·.value?)) == some "on" then unexpected
  name

/-- A condition on the type, if there is one. -/
def typeCondition : Parser (Option String) := do
  if ← skipKeyword "on" then return some (← name) else return none

/-- What follows the points of a spread: the name of a fragment, or selections. -/
def spread (depth : Nat) (selections : Parser (List Selection)) : Parser Selection := do
  let condition ← typeCondition
  match condition, ← peek with
  | none, some (.name _) => return .spread (← fragmentName) (← directives false depth)
  | _, _ => return .inlined condition (← directives false depth) (← selections)

/-- A field. Two names around a colon are what it is called and what it is. -/
def fieldSelection (depth : Nat) (selections : Parser (List Selection)) : Parser Selection := do
  let first ← name
  let second ← if ← skip .colon then pure (some (← name)) else pure none
  let arguments ← arguments false depth
  let directives ← directives false depth
  let inner ← if ← isNext .braceLeft then pure (some (← selections)) else pure none
  match second with
  | some name => return .field (some first) name arguments directives inner
  | none => return .field none first arguments directives inner

/-- Selections in braces. -/
def selections : Nat → Parser (List Selection)
  | 0 => do
    let _ ← peek
    throw .nestedTooDeeply
  | depth + 1 =>
    any .braceLeft .braceRight do
      if ← skip .spread then spread depth (selections depth)
      else fieldSelection depth (selections depth)

/-- A variable of an operation. -/
def variableDefinition : Parser VariableDefinition := do
  let description ← description
  expect .dollar
  let name ← name
  expect .colon
  let type ← typeRef maxDepth
  let default ← defaultValue
  return ⟨description, name, type, default, ← constantDirectives⟩

/-- What follows the word for an operation. -/
def operation (description : Option String) (kind : OperationKind) : Parser Operation := do
  let name ← match ← peek with
    | some (.name _) => some <$> name
    | _ => pure none
  let parameters ← optionalMany .parenLeft .parenRight variableDefinition
  let directives ← directives false maxDepth
  return ⟨description, kind, name, parameters, directives, ← selections maxDepth⟩

/-- What follows the word for a fragment. -/
def fragment (description : Option String) : Parser Fragment := do
  let fragment ← fragmentName
  keyword "on"
  let condition ← name
  let directives ← directives false maxDepth
  return ⟨description, fragment, condition, directives, ← selections maxDepth⟩

end SchemaModels.Graphql.Parser
