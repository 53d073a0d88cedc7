import SchemaModels.Artifact.Encode
import SchemaModels.Json.Reader
import SchemaModels.Model.Validation

/-!
Reading an artifact. The data are taken apart from the outside in, and each
entity is checked once all of its parts have been built, so a fault is told
from the innermost entity. Absent lists are empty; an empty text or an empty
object also counts as an empty list.
-/
namespace SchemaModels

namespace Artifact

/-- Why a text is no artifact. -/
inductive ReadError where
  | malformed
  | numeral (error : NumeralError)
  /-- A member was looked for in something that is no object. -/
  | notObject
  /-- Items were looked for in something that has none. -/
  | notItems
  | missingMember (name : String)
  | unsupportedVersion (version : Json CodeText)
  | unknownTypeKind (kind : Json CodeText)
  | unknownValueKind (kind : Json CodeText)
  | unknownPrimitive (name : Json CodeText)
  | invalid (faults : List Fault)

/-- The words for an error, where the format gives it some. -/
def ReadError.message? : ReadError → Option String
  | .numeral error => some error.message
  | .missingMember name => some (Text.literal name)
  | .unsupportedVersion version => some ("Unsupported artifact format version: " ++ version.literal)
  | .unknownTypeKind kind => some ("Unknown field type kind: " ++ kind.literal)
  | .unknownValueKind kind => some ("Unknown value kind: " ++ kind.literal)
  | .unknownPrimitive name => some (name.literal ++ " is not a valid PrimitiveType")
  | _ => none

/-- The members of an object. -/
def members : Json CodeText → Except ReadError (List (CodeText × Json CodeText))
  | .object entries => .ok entries
  | _ => .error .notObject

/-- A member that must be there, of something that should be an object. -/
def member (json : Json CodeText) (name : String) : Except ReadError (Json CodeText) :=
  match json with
  | .object entries =>
    match Json.named? entries name with
    | some value => .ok value
    | none => .error (.missingMember name)
  | _ => .error .notItems

/-- A member that may be absent. -/
def memberOr (json : Json CodeText) (name : String) (absent : Json CodeText) :
    Except ReadError (Json CodeText) :=
  (members json).map fun entries => (Json.named? entries name).getD absent

/-- The items of a list. The keys of an object and the code points of a text
count as items too. -/
def items : Json CodeText → Except ReadError (List (Json CodeText))
  | .list values => .ok values
  | .object entries => .ok (entries.map fun entry => .text entry.1)
  | .text s => .ok (s.map fun point => .text [point])
  | _ => .error .notItems

def checked {α : Type} (c : Checked α) : Except ReadError α := c.toExcept .invalid

/-- The value of a scalar record. -/
def scalar {α : Type} (json : Json CodeText) (check : Json CodeText → Checked α) :
    Except ReadError α := do
  let value ← member json "value"
  checked ((check value).under "value")

end Artifact

open Artifact

namespace Value

mutual
/-- A value from its record. -/
def decode : Json CodeText → Except ReadError (Value CodeText)
  | .object entries =>
    match Json.named? entries "kind" with
    | none => .error (.missingMember "kind")
    | some kind =>
      match kind.word? with
      | some "null" => .ok .null
      | some "boolean" => (scalar (.object entries) Lenient.boolean).map .boolean
      | some "string" => (scalar (.object entries) Lenient.text).map .text
      | some "int" => (scalar (.object entries) Lenient.integer).map .integer
      | some "float" => (scalar (.object entries) Lenient.float).map .float
      | some "list" => (decodeItemsOf entries).map .list
      | some "object" => (decodeFieldsOf entries).map .object
      | _ => .error (.unknownValueKind kind)
  | _ => .error .notItems

/-- The values of a list record. Keys and code points are no values, so of the
other things that have items only the empty ones are lists. -/
def decodeItemsOf :
    List (CodeText × Json CodeText) → Except ReadError (List (Value CodeText))
  | [] => .error (.missingMember "values")
  | (name, json) :: rest =>
    if name = CodeText.ofString "values" then
      match json with
      | .list values => decodeItems values
      | .object [] => .ok []
      | .text s => if s.isEmpty then .ok [] else .error .notItems
      | _ => .error .notItems
    else decodeItemsOf rest

def decodeItems : List (Json CodeText) → Except ReadError (List (Value CodeText))
  | [] => .ok []
  | json :: rest => do
    let value ← decode json
    let values ← decodeItems rest
    return value :: values

/-- The fields of an object record. -/
def decodeFieldsOf :
    List (CodeText × Json CodeText) → Except ReadError (List (CodeText × Value CodeText))
  | [] => .error (.missingMember "fields")
  | (name, json) :: rest =>
    if name = CodeText.ofString "fields" then
      match json with
      | .object fields => decodeEntries fields
      | _ => .error .notObject
    else decodeFieldsOf rest

def decodeEntries :
    List (CodeText × Json CodeText) → Except ReadError (List (CodeText × Value CodeText))
  | [] => .ok []
  | (key, json) :: rest => do
    let value ← decode json
    let entries ← decodeEntries rest
    return (key, value) :: entries
end

end Value

/-- A field type from its record. -/
def FieldType.decode (json : Json CodeText) : Except ReadError (FieldType CodeText) := do
  let kind ← member json "kind"
  match kind.word? with
  | some "primitive" =>
    let name ← member json "primitive"
    match name.word?.bind Primitive.ofLabel? with
    | some p => return .primitive p
    | none => throw (.unknownPrimitive name)
  | some "reference" =>
    let model ← member json "model"
    let source ← memberOr json "source" .null
    checked (FieldType.checkReference ((Lenient.text model).under "model")
      ((Lenient.optionalText source).under "source"))
  | _ => throw (.unknownTypeKind kind)

/-- A directive from its record. -/
def Directive.decode (json : Json CodeText) : Except ReadError (Directive CodeText) := do
  let name ← member json "name"
  let provider ← memberOr json "provider" .null
  let args ← members (← memberOr json "args" (.object []))
  let args ← Value.decodeEntries args
  checked (Directive.ofChecked ((Lenient.text name).under "name")
    ((Lenient.optionalText provider).under "provider") (.valid args))

/-- A field from its record. -/
def Field.decode (json : Json CodeText) : Except ReadError (Field CodeText) := do
  let name ← member json "name"
  let type ← FieldType.decode (← member json "type")
  let nonNull ← memberOr json "nonNull" (.boolean false)
  let collection ← memberOr json "collection" (.boolean false)
  let directives ← (← items (← memberOr json "directives" (.list []))).mapM Directive.decode
  checked (Field.ofChecked ((Lenient.text name).under "name") (.valid type)
    ((Lenient.boolean nonNull).under "non_null")
    ((Lenient.boolean collection).under "collection") (.valid directives))

/-- A model from its record. -/
def Model.decode (json : Json CodeText) : Except ReadError (Model CodeText) := do
  let name ← member json "name"
  let source ← member json "source"
  let fields ← (← items (← memberOr json "fields" (.list []))).mapM Field.decode
  let directives ← (← items (← memberOr json "directives" (.list []))).mapM Directive.decode
  checked (Model.ofChecked ((Lenient.text name).under "name")
    ((Lenient.text source).under "source") (.valid fields) (.valid directives))

namespace Artifact

/-- The models of an artifact. -/
def decode (json : Json CodeText) : Except ReadError (List (Model CodeText)) := do
  let entries ← members json
  let given := (Json.named? entries "v").getD .null
  if given.word? != some version then throw (.unsupportedVersion given)
  (← items ((Json.named? entries "models").getD (.list []))).mapM Model.decode

/-- The models of the text of an artifact. -/
def read (text : String) : Except ReadError (List (Model CodeText)) :=
  match Json.read text with
  | .ok json => decode json
  | .error .malformed => .error .malformed
  | .error (.numeral error) => .error (.numeral error)

end Artifact
end SchemaModels
