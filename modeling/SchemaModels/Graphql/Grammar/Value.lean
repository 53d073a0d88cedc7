import SchemaModels.Graphql.Document
import SchemaModels.Graphql.Grammar.Basic

/-!
Literals, types and directives. Brackets nest only so deep: every parser of what
can nest is given the number of levels that are left.
-/
namespace SchemaModels.Graphql.Parser

/-- The number of levels of brackets in a document. -/
def maxDepth : Nat := 200

/-- A name, a colon and what follows it. -/
def entry {α : Type} (value : Parser α) : Parser (String × α) := do
  let key ← name
  expect .colon
  return (key, ← value)

/-- A variable. Where only constants may stand, it fails. -/
def variableUse (constant : Bool) : Parser Literal := do
  let dollar ← peek
  advance
  if constant then
    match ← peek with
    | some (.name value) => throw (.variableInConstant value)
    | _ => throw (.unexpected dollar)
  else return .variable (← name)

/-- The literal of a name. -/
def namedLiteral (word : String) : Literal :=
  if word = "true" then .boolean true
  else if word = "false" then .boolean false
  else if word = "null" then .null
  else .enum word

/-- A literal without parts. -/
def scalarLiteral (constant : Bool) : Parser Literal := do
  match ← peek with
  | some (.integer lexeme) =>
    advance
    return .integer lexeme
  | some (.float lexeme) =>
    advance
    return .float lexeme
  | some (.text value) | some (.blockText value) =>
    advance
    return .text value
  | some (.name word) =>
    advance
    return namedLiteral word
  | some (.punctuator .dollar) => variableUse constant
  | token => throw (.unexpected token)

/-- A literal. -/
def literal (constant : Bool) : Nat → Parser Literal
  | 0 => do
    if (← isNext .bracketLeft) || (← isNext .braceLeft) then throw .nestedTooDeeply
    scalarLiteral constant
  | depth + 1 => do
    if ← isNext .bracketLeft then
      return .list (← any .bracketLeft .bracketRight (literal constant depth))
    else if ← isNext .braceLeft then
      return .object (← any .braceLeft .braceRight (entry (literal constant depth)))
    else scalarLiteral constant

/-- A type that a mark may make non-null. -/
def markedType (type : TypeRef) : Parser TypeRef := do
  if ← skip .bang then return .nonNull type else return type

/-- A type. -/
def typeRef : Nat → Parser TypeRef
  | 0 => do
    if ← isNext .bracketLeft then throw .nestedTooDeeply
    markedType (.named (← name))
  | depth + 1 => do
    if ← skip .bracketLeft then
      let item ← typeRef depth
      expect .bracketRight
      markedType (.list item)
    else markedType (.named (← name))

/-- Arguments in parentheses, if there are any. -/
def arguments (constant : Bool) (depth : Nat) : Parser (List (String × Literal)) :=
  optionalMany .parenLeft .parenRight (entry (literal constant depth))

/-- A directive with its arguments. -/
def appliedDirective (constant : Bool) (depth : Nat) : Parser AppliedDirective := do
  expect .at
  let directive ← name
  return ⟨directive, ← arguments constant depth⟩

/-- All directives at this place. -/
def directives (constant : Bool) (depth : Nat) : Parser (List AppliedDirective) := do
  itemsWhile .at (appliedDirective constant depth) (← fuel)

/-- The directives of a definition. -/
def constantDirectives : Parser (List AppliedDirective) := directives true maxDepth

/-- A text that describes what follows it, if there is one. -/
def description : Parser (Option String) := do
  match ← peek with
  | some (.text value) | some (.blockText value) =>
    advance
    return some value
  | _ => return none

end SchemaModels.Graphql.Parser
