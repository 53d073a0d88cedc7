import SchemaModels.Json.Writer
import SchemaModels.Model.Entity

/-!
The artifact of a list of models: one line of compact JSON with a format
version. An absent provider and an absent source are left out. Records hold the code
points of texts.
-/
namespace SchemaModels

/-- The version of the format. -/
def Artifact.version : String := "1"

namespace Value

mutual
/-- A value with the name of its kind. -/
def encode : Value CodeText → Json CodeText
  | .null => .object [("kind", .text "null")]
  | .boolean b => .object [("kind", .text "boolean"), ("value", .boolean b)]
  | .text s => .object [("kind", .text "string"), ("value", .text s)]
  | .integer n => .object [("kind", .text "int"), ("value", .integer n)]
  | .float x => .object [("kind", .text "float"), ("value", .float x)]
  | .list items => .object [("kind", .text "list"), ("values", .list (encodeItems items))]
  | .object fields =>
    .object [("kind", .text "object"), ("fields", .object (encodeFields fields))]

def encodeItems : List (Value CodeText) → List (Json CodeText)
  | [] => []
  | item :: rest => item.encode :: encodeItems rest

def encodeFields : List (CodeText × Value CodeText) → List (CodeText × Json CodeText)
  | [] => []
  | (key, value) :: rest => (key, value.encode) :: encodeFields rest
end

end Value

/-- A member that is left out when it has no value. -/
def Artifact.optionalMember (name : String) :
    Option CodeText → List (CodeText × Json CodeText)
  | none => []
  | some s => [(name, .text s)]

def FieldType.encode : FieldType CodeText → Json CodeText
  | .primitive p => .object [("kind", .text "primitive"), ("primitive", .text p.label)]
  | .reference model source =>
    .object (("kind", .text "reference") :: ("model", .text model) ::
      Artifact.optionalMember "source" source)

def Directive.encode (d : Directive CodeText) : Json CodeText :=
  .object (("name", .text d.name) :: ("args", .object (Value.encodeFields d.args)) ::
    Artifact.optionalMember "provider" d.provider)

def Field.encode (f : Field CodeText) : Json CodeText :=
  .object [("name", .text f.name), ("type", f.type.encode), ("nonNull", .boolean f.nonNull),
    ("collection", .boolean f.collection), ("directives", .list (f.directives.map (·.encode)))]

def Model.encode (m : Model CodeText) : Json CodeText :=
  .object [("name", .text m.name), ("source", .text m.source),
    ("fields", .list (m.fields.map (·.encode))),
    ("directives", .list (m.directives.map (·.encode)))]

namespace Artifact

def encode (models : List (Model CodeText)) : Json CodeText :=
  .object [("v", .text version), ("models", .list (models.map (·.encode)))]

/-- The text of the artifact of some models. -/
def write {τ : Type} [Coded τ] (models : List (Model τ)) : String :=
  (encode (models.map Model.coded)).render

end Artifact
end SchemaModels
