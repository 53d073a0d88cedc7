import SchemaModels.Entries
import SchemaModels.Number.FloatText
import SchemaModels.Text.CodePoint

/-!
JSON values. Integers and doubles are different values, and the members of an
object keep their order.
-/
namespace SchemaModels

/-- A value whose texts and keys are of some type. -/
inductive Json (τ : Type := String) where
  | null
  | boolean (b : Bool)
  | integer (n : Int)
  | float (x : Binary64)
  | text (s : τ)
  | list (items : List (Json τ))
  | object (members : List (τ × Json τ))
  deriving Inhabited

namespace Json

/-- The value of the member with a name. -/
def named? (members : List (CodeText × Json CodeText)) (name : String) : Option (Json CodeText) :=
  members.lookup (CodeText.ofString name)

/-- The word that a value is, which has no surrogates. -/
def word? : Json CodeText → Option String
  | .text s => s.string?
  | _ => none

/-- Texts separated by commas. -/
def commaSeparated : List String → String
  | [] => ""
  | [item] => item
  | item :: rest => item ++ ", " ++ commaSeparated rest

mutual
/-- A value as a literal on one line, for messages. -/
def literal : Json CodeText → String
  | .null => "None"
  | .boolean true => "True"
  | .boolean false => "False"
  | .integer n => toString n
  | .float x => x.text .plain
  | .text s => s.literal
  | .list items => "[" ++ commaSeparated (literals items) ++ "]"
  | .object members => "\x7b" ++ commaSeparated (memberLiterals members) ++ "\x7d"

def literals : List (Json CodeText) → List String
  | [] => []
  | item :: rest => item.literal :: literals rest

def memberLiterals : List (CodeText × Json CodeText) → List String
  | [] => []
  | (key, value) :: rest => (key.literal ++ ": " ++ value.literal) :: memberLiterals rest
end

end Json
end SchemaModels
