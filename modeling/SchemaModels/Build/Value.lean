import SchemaModels.Build.Error
import SchemaModels.Graphql.Document
import SchemaModels.Model.Value

/-!
The values of literals. An enum value counts as a text, and of the fields with
one name the first gives the place and the last the value. All of them are read,
also those that a later one replaces.
-/
namespace SchemaModels.Build

open Graphql (Literal)

/-- A number, or the reason why it cannot be held. -/
def numeral {α : Type} : Except NumeralError α → Except BuildError α
  | .ok a => .ok a
  | .error e => .error (.numeral e)

mutual
/-- The value of a literal. -/
def value : Literal → Except BuildError Value
  | .boolean b => .ok (.boolean b)
  | .enum s | .text s => .ok (.text s)
  | .float lexeme => (numeral (Numeral.readFloat lexeme)).map .float
  | .integer lexeme => (numeral (Numeral.readInteger 10 lexeme)).map .integer
  | .null => .ok .null
  | .object fields => (pairs fields).map fun pairs => .object (Entries.ofPairs pairs)
  | .list items => (values items).map .list
  | .variable _ => .error (.unsupportedValue .variable)
  | .other kind => .error (.unsupportedValue kind)

def values : List Literal → Except BuildError (List Value)
  | [] => .ok []
  | item :: rest => do
    let first ← value item
    return first :: (← values rest)

def pairs : List (String × Literal) → Except BuildError (List (String × Value))
  | [] => .ok []
  | (key, literal) :: rest => do
    let first ← value literal
    return (key, first) :: (← pairs rest)
end

/-- The arguments that are given by name, each name once. -/
def arguments (given : List (String × Literal)) : Except BuildError (List (String × Value)) :=
  (pairs given).map Entries.ofPairs

end SchemaModels.Build
