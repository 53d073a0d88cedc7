import SchemaModels.Model.FieldType
import SchemaModels.Model.Value

/-!
Models, their fields, and the directives attached to either. The texts of what is built
are strings. Those of what is read from data have code points.
-/
namespace SchemaModels

/-- A directive with its arguments in order. The provider is known only where
names are split into a provider and a name. -/
structure Directive (τ : Type := String) where
  name : τ
  provider : Option τ
  args : List (τ × Value τ)

/-- A field. Of the wrappers of its type only the outer ones are kept. -/
structure Field (τ : Type := String) where
  name : τ
  type : FieldType τ
  nonNull : Bool
  collection : Bool
  directives : List (Directive τ)

structure Model (τ : Type := String) where
  name : τ
  source : τ
  fields : List (Field τ)
  directives : List (Directive τ)

/-- Pairwise comparison of two lists. -/
def equalLists {α : Type} (same : α → α → Bool) : List α → List α → Bool
  | [], [] => true
  | a :: as, b :: bs => same a b && equalLists same as bs
  | _, _ => false

variable {τ σ : Type}

namespace Directive

/-- The arguments as plain values. -/
def plainArgs (d : Directive τ) : List (τ × Json τ) := Value.plainFields d.args

/-- The directive with each text changed. -/
def mapTexts (f : τ → σ) (d : Directive τ) : Directive σ :=
  ⟨f d.name, d.provider.map f, Value.mapFields f d.args⟩

def equal [DecidableEq τ] (a b : Directive τ) : Bool :=
  a.name == b.name && a.provider == b.provider && Value.equal (.object a.args) (.object b.args)

end Directive

namespace Field

/-- The field with each text changed. -/
def mapTexts (f : τ → σ) (field : Field τ) : Field σ :=
  ⟨f field.name, field.type.mapTexts f, field.nonNull, field.collection,
    field.directives.map (·.mapTexts f)⟩

def equal [DecidableEq τ] (a b : Field τ) : Bool :=
  a.name == b.name && decide (a.type = b.type) && a.nonNull == b.nonNull &&
    a.collection == b.collection && equalLists Directive.equal a.directives b.directives

end Field

namespace Model

/-- The first field of a name. -/
def field? [DecidableEq τ] (m : Model τ) (name : τ) : Option (Field τ) :=
  m.fields.find? (·.name == name)

/-- The number of fields that refer to other models. -/
def relations (m : Model τ) : Nat := m.fields.countP (·.type.isReference)

/-- The model with each text changed. -/
def mapTexts (f : τ → σ) (m : Model τ) : Model σ :=
  ⟨f m.name, f m.source, m.fields.map (·.mapTexts f), m.directives.map (·.mapTexts f)⟩

/-- The model with its texts as code points. -/
def coded [Coded τ] (m : Model τ) : Model CodeText := m.mapTexts Coded.code

def equal [DecidableEq τ] (a b : Model τ) : Bool :=
  a.name == b.name && a.source == b.source && equalLists Field.equal a.fields b.fields &&
    equalLists Directive.equal a.directives b.directives

end Model
end SchemaModels
