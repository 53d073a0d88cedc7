/-!
The type of a field: a primitive, or a reference to another model by its name.
-/
namespace SchemaModels

inductive Primitive where
  | text
  | integer
  | boolean
  | float
  | date
  | uuid
  | buffer
  deriving DecidableEq, Repr

namespace Primitive

/-- All primitives. -/
def all : List Primitive := [.text, .integer, .boolean, .float, .date, .uuid, .buffer]

/-- The name of a primitive in an artifact. -/
def label : Primitive → String
  | .text => "string"
  | .integer => "int"
  | .boolean => "boolean"
  | .float => "float"
  | .date => "date"
  | .uuid => "uuid"
  | .buffer => "buffer"

/-- The scalar of the schema language that stands for a primitive. -/
def scalar : Primitive → String
  | .text => "String"
  | .integer => "Int"
  | .boolean => "Boolean"
  | .float => "Float"
  | .date => "Date"
  | .uuid => "ID"
  | .buffer => "Buffer"

def ofLabel? (name : String) : Option Primitive := all.find? fun p => p.label == name

def ofScalar? (name : String) : Option Primitive := all.find? fun p => p.scalar == name

end Primitive

/-- The type of a field. The model of a reference is not looked up, and its
source is the default source at the time of building. -/
inductive FieldType (τ : Type := String) where
  | primitive (kind : Primitive)
  | reference (model : τ) (source : Option τ)
  deriving DecidableEq, Repr

namespace FieldType

variable {τ σ : Type}

/-- The type that a name stands for: a primitive if it is one of the scalars, a
reference otherwise. -/
def ofName (name : String) (defaultSource : Option String) : FieldType :=
  match Primitive.ofScalar? name with
  | some p => .primitive p
  | none => .reference name defaultSource

def isReference : FieldType τ → Bool
  | .primitive _ => false
  | .reference .. => true

/-- The type with each text changed. -/
def mapTexts (f : τ → σ) : FieldType τ → FieldType σ
  | .primitive kind => .primitive kind
  | .reference model source => .reference (f model) (source.map f)

end FieldType
end SchemaModels
