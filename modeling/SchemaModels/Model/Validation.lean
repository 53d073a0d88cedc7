import SchemaModels.Model.Entity
import SchemaModels.Model.Lenient

/-!
Entities from given JSON data. Fields are checked in the order of their
declaration, unknown members are ignored, and absent lists are empty.
-/
namespace SchemaModels

open Checked (fail)

namespace Lenient

/-- A member that must be there. -/
def required {α : Type} (members : List (CodeText × Json CodeText)) (name : String)
    (check : Json CodeText → Checked α) : Checked α :=
  (match Json.named? members name with
    | none => fail .missing
    | some json => check json).under name

/-- A member that may be absent. -/
def optional {α : Type} (members : List (CodeText × Json CodeText)) (name : String)
    (absent : α) (check : Json CodeText → Checked α) : Checked α :=
  match Json.named? members name with
  | none => .valid absent
  | some json => (check json).under name

/-- The items of a list, each checked under its position from `start` on. -/
def itemsFrom {α : Type} (check : Json CodeText → Checked α) :
    Nat → List (Json CodeText) → List (Checked α)
  | _, [] => []
  | start, item :: rest => (check item).under (toString start) :: itemsFrom check (start + 1) rest

def list {α : Type} (check : Json CodeText → Checked α) : Json CodeText → Checked (List α)
  | .list items => Checked.all (itemsFrom check 0 items)
  | _ => fail .listType

end Lenient

namespace Value

mutual
/-- A value from data that names its kind. -/
def check : Json CodeText → Checked (Value CodeText)
  | .object members =>
    match Json.named? members "kind" with
    | none => fail .tagMissing
    | some kind =>
      match kind.word? with
      | some "null" => .valid .null
      | some "boolean" =>
        ((Lenient.required members "value" Lenient.boolean).map .boolean).under "boolean"
      | some "string" =>
        ((Lenient.required members "value" Lenient.text).map .text).under "string"
      | some "int" =>
        ((Lenient.required members "value" Lenient.integer).map .integer).under "int"
      | some "float" =>
        ((Lenient.required members "value" Lenient.float).map .float).under "float"
      | some "list" => ((checkItemsOf members).map .list).under "list"
      | some "object" => ((checkFieldsOf members).map .object).under "object"
      | _ => fail .tagUnknown
  | _ => fail .taggedRecordType

/-- The values of a list record, taken from the first member of that name. -/
def checkItemsOf : List (CodeText × Json CodeText) → Checked (List (Value CodeText))
  | [] => .valid []
  | (name, json) :: rest =>
    if name = CodeText.ofString "values" then
      (match json with
        | .list items => Checked.all (checkItems 0 items)
        | _ => fail .listType).under "values"
    else checkItemsOf rest

def checkItems : Nat → List (Json CodeText) → List (Checked (Value CodeText))
  | _, [] => []
  | position, item :: rest =>
    (check item).under (toString position) :: checkItems (position + 1) rest

/-- The fields of an object record, taken from the first member of that name. -/
def checkFieldsOf :
    List (CodeText × Json CodeText) → Checked (List (CodeText × Value CodeText))
  | [] => .valid []
  | (name, json) :: rest =>
    if name = CodeText.ofString "fields" then
      (match json with
        | .object fields => Checked.all (checkEntries fields)
        | _ => fail .objectType).under "fields"
    else checkFieldsOf rest

/-- Each entry of an object, checked under its key. -/
def checkEntries :
    List (CodeText × Json CodeText) → List (Checked (CodeText × Value CodeText))
  | [] => []
  | (key, json) :: rest => ((check json).map (key, ·)).under key :: checkEntries rest
end

end Value

namespace FieldType

/-- A primitive by its name in data. -/
def checkPrimitive (json : Json CodeText) : Checked Primitive :=
  match json.word?.bind Primitive.ofLabel? with
  | some p => .valid p
  | none => fail .notInEnumeration

/-- The reference with a given model and source. -/
def checkReference (model : Checked CodeText) (source : Checked (Option CodeText)) :
    Checked (FieldType CodeText) :=
  (model.map FieldType.reference).also source

/-- A field type from data that names its kind. -/
def check : Json CodeText → Checked (FieldType CodeText)
  | .object members =>
    match Json.named? members "kind" with
    | none => fail .tagMissing
    | some kind =>
      match kind.word? with
      | some "primitive" =>
        ((Lenient.required members "primitive" checkPrimitive).map .primitive).under "primitive"
      | some "reference" =>
        (checkReference (Lenient.required members "model" Lenient.text)
          (Lenient.optional members "source" none Lenient.optionalText)).under "reference"
      | _ => fail .tagUnknown
  | _ => fail .taggedRecordType

end FieldType

namespace Directive

def ofChecked (name : Checked CodeText) (provider : Checked (Option CodeText))
    (args : Checked (List (CodeText × Value CodeText))) : Checked (Directive CodeText) :=
  ((name.map Directive.mk).also provider).also args

/-- A directive from data. -/
def check : Json CodeText → Checked (Directive CodeText)
  | .object members =>
    ofChecked (Lenient.required members "name" Lenient.text)
      (Lenient.optional members "provider" none Lenient.optionalText)
      (Lenient.optional members "args" [] fun
        | .object entries => Checked.all (Value.checkEntries entries)
        | _ => fail .objectType)
  | _ => fail .recordType

end Directive

namespace Field

def ofChecked (name : Checked CodeText) (type : Checked (FieldType CodeText))
    (nonNull collection : Checked Bool) (directives : Checked (List (Directive CodeText))) :
    Checked (Field CodeText) :=
  ((((name.map Field.mk).also type).also nonNull).also collection).also directives

/-- A field from data. -/
def check : Json CodeText → Checked (Field CodeText)
  | .object members =>
    ofChecked (Lenient.required members "name" Lenient.text)
      (Lenient.required members "type" FieldType.check)
      (Lenient.optional members "non_null" false Lenient.boolean)
      (Lenient.optional members "collection" false Lenient.boolean)
      (Lenient.optional members "directives" [] (Lenient.list Directive.check))
  | _ => fail .recordType

end Field

namespace Model

def ofChecked (name source : Checked CodeText) (fields : Checked (List (Field CodeText)))
    (directives : Checked (List (Directive CodeText))) : Checked (Model CodeText) :=
  (((name.map Model.mk).also source).also fields).also directives

/-- A model from data. -/
def check : Json CodeText → Checked (Model CodeText)
  | .object members =>
    ofChecked (Lenient.required members "name" Lenient.text)
      (Lenient.required members "source" Lenient.text)
      (Lenient.optional members "fields" [] (Lenient.list Field.check))
      (Lenient.optional members "directives" [] (Lenient.list Directive.check))
  | _ => fail .recordType

end Model
end SchemaModels
