import SchemaModels.Graphql.Grammar.Operation
import SchemaModels.Graphql.Lexer

/-!
Whole documents, and single values and types, from text.
-/
namespace SchemaModels.Graphql

namespace Parser

/-- A definition that begins with a word, after its description. -/
def definitionOf (description : Option String) (word : String) : Parser Definition :=
  match declaration? word false with
  | some parser => do
    advance
    return .declaration description (← parser)
  | none => do
    if word = "directive" then
      advance
      return .directive description (← directiveDefinition)
    else if word = "fragment" then
      advance
      return .fragment (← fragment description)
    else
      match operationKind? word with
      | some kind =>
        advance
        return .operation (← operation description kind)
      | none =>
        if description.isSome then throw .describedOther
        else if word = "extend" then
          advance
          return .extension (← extension)
        else unexpected

/-- A definition. Selections alone are a query. -/
def definition : Parser Definition := do
  if ← isNext .braceLeft then
    return .operation ⟨none, .query, none, [], [], ← selections maxDepth⟩
  let description ← description
  match ← peek with
  | some (.name word) => definitionOf description word
  | some (.punctuator .braceLeft) => throw .describedShorthand
  | _ => unexpected

/-- Definitions up to the end of the text. -/
def definitionsToEnd : Nat → Parser (List Definition)
  | 0 => unexpected
  | fuel + 1 => do
    match ← peek with
    | none => return []
    | some _ =>
      let first ← definition
      return first :: (← definitionsToEnd fuel)

/-- A document: at least one definition. -/
def document : Parser Document := do
  let first ← definition
  return ⟨first :: (← definitionsToEnd (← fuel))⟩

end Parser

/-- The document that a text writes. -/
def Document.parse (source : String) : Except SyntaxError Document :=
  Parser.document.run' (Tokens.ofText source)

/-- The value that a text writes. Variables may occur in it. -/
def Literal.parse (source : String) : Except SyntaxError Literal :=
  (Parser.literal false Parser.maxDepth).runWhole (Tokens.ofText source)

/-- The type that a text writes. -/
def TypeRef.parse (source : String) : Except SyntaxError TypeRef :=
  (Parser.typeRef Parser.maxDepth).runWhole (Tokens.ofText source)

end SchemaModels.Graphql
