import SchemaModels.Graphql.Document
import SchemaModels.Proofs.Graphql.Token

/-!
The shape that parsing gives to documents. Trees that are built by hand can have
nodes in places that they do not belong in; parsed ones have none, their numbers
are lexemes, and no mark for non-null follows another.
-/
namespace SchemaModels.Graphql

namespace Literal

mutual
/-- A property of all literals without parts inside a literal. -/
def Leaves (P : Literal → Prop) : Literal → Prop
  | .list items => ItemLeaves P items
  | .object fields => FieldLeaves P fields
  | leaf => P leaf

def ItemLeaves (P : Literal → Prop) : List Literal → Prop
  | [] => True
  | item :: rest => item.Leaves P ∧ ItemLeaves P rest

def FieldLeaves (P : Literal → Prop) : List (String × Literal) → Prop
  | [] => True
  | (_, value) :: rest => value.Leaves P ∧ FieldLeaves P rest
end

theorem itemLeaves_iff {P : Literal → Prop} {items : List Literal} :
    ItemLeaves P items ↔ ∀ item ∈ items, item.Leaves P := by
  induction items with
  | nil => simp [ItemLeaves]
  | cons item rest ih => simp [ItemLeaves, ih]

theorem fieldLeaves_iff {P : Literal → Prop} {fields : List (String × Literal)} :
    FieldLeaves P fields ↔ ∀ field ∈ fields, field.2.Leaves P := by
  induction fields with
  | nil => simp [FieldLeaves]
  | cons field rest ih => simp [FieldLeaves, ih]

mutual
/-- What follows from two properties of a leaf holds of all of them. -/
theorem Leaves.imp₂ {P Q R : Literal → Prop} (hLeaf : ∀ leaf, P leaf → Q leaf → R leaf)
    {literal : Literal} (hP : literal.Leaves P) (hQ : literal.Leaves Q) : literal.Leaves R := by
  cases literal with
  | list items => exact ItemLeaves.imp₂ hLeaf hP hQ
  | object fields => exact FieldLeaves.imp₂ hLeaf hP hQ
  | _ => exact hLeaf _ hP hQ

theorem ItemLeaves.imp₂ {P Q R : Literal → Prop} (hLeaf : ∀ leaf, P leaf → Q leaf → R leaf)
    {items : List Literal} (hP : ItemLeaves P items) (hQ : ItemLeaves Q items) :
    ItemLeaves R items := by
  cases items with
  | nil => trivial
  | cons item rest => exact ⟨Leaves.imp₂ hLeaf hP.1 hQ.1, ItemLeaves.imp₂ hLeaf hP.2 hQ.2⟩

theorem FieldLeaves.imp₂ {P Q R : Literal → Prop} (hLeaf : ∀ leaf, P leaf → Q leaf → R leaf)
    {fields : List (String × Literal)} (hP : FieldLeaves P fields) (hQ : FieldLeaves Q fields) :
    FieldLeaves R fields := by
  cases fields with
  | nil => trivial
  | cons field rest => exact ⟨Leaves.imp₂ hLeaf hP.1 hQ.1, FieldLeaves.imp₂ hLeaf hP.2 hQ.2⟩
end

/-- What parsing can make of a literal without parts. Variables occur only where
not just constants may stand. -/
def LeafWellFormed (constant : Bool) : Literal → Prop
  | .variable name => constant = false ∧ IsName name
  | .integer lexeme => IsIntegerLexeme lexeme
  | .float lexeme => IsNumberLexeme lexeme
  | .enum name => IsName name
  | .text _ | .boolean _ | .null => True
  | .list _ | .object _ | .other _ => False

def WellFormed (constant : Bool) (literal : Literal) : Prop :=
  literal.Leaves (LeafWellFormed constant)

end Literal

/-- Entries with names in front of well-formed literals. -/
def WellFormedEntries (constant : Bool) (entries : List (String × Literal)) : Prop :=
  ∀ entry ∈ entries, IsName entry.1 ∧ entry.2.WellFormed constant

def AppliedDirective.WellFormed (constant : Bool) (applied : AppliedDirective) : Prop :=
  IsName applied.name ∧ WellFormedEntries constant applied.arguments

def TypeRef.WellFormed : TypeRef → Prop
  | .named name => IsName name
  | .list item => item.WellFormed
  | .nonNull inner => inner.WellFormed ∧ ∀ type, inner ≠ .nonNull type
  | .other _ => False

/-- A field whose type and directives are well-formed. -/
def Member.WellFormed (constant : Bool) : Member → Prop
  | .field definition =>
    IsName definition.name ∧ definition.type.WellFormed ∧
      ∀ applied ∈ definition.directives, applied.WellFormed constant
  | .other _ => False

structure ObjectType.WellFormed (constant : Bool) (type : ObjectType) : Prop where
  name : IsName type.name
  directives : ∀ applied ∈ type.directives, applied.WellFormed constant
  fields : ∀ member ∈ type.fields, member.WellFormed constant

/-- Of the definitions only the object types are looked into. -/
def Definition.WellFormed (constant : Bool) : Definition → Prop
  | .declaration _ (.object type) => type.WellFormed constant
  | .other _ => False
  | _ => True

def Document.WellFormed (constant : Bool) (document : Document) : Prop :=
  ∀ definition ∈ document.definitions, definition.WellFormed constant

end SchemaModels.Graphql
