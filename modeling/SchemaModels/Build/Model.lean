import SchemaModels.Build.Naming
import SchemaModels.Build.Value
import SchemaModels.Model.Entity

/-!
Models from object types. The directive that names the source of a model is read
under any convention of names, and fields do not report it.
-/
namespace SchemaModels.Build

open Graphql (AppliedDirective FieldDefinition Literal Member ObjectType TypeRef)

/-- What a building needs to know besides the document. -/
structure Options where
  defaultSource : Option String
  naming : Naming

/-- The type of a field and the wrappers around it. -/
structure FieldShape where
  nonNull : Bool
  collection : Bool
  type : FieldType

/-- Takes one mark for non-null off. -/
def stripNonNull : TypeRef → TypeRef
  | .nonNull inner => inner
  | type => type

/-- What is left of a type without its wrappers, and whether one was a list. -/
def stripList : TypeRef → Bool × TypeRef
  | .list item => (true, stripNonNull item)
  | type => (false, type)

def isNonNull : TypeRef → Bool
  | .nonNull _ => true
  | _ => false

/-- The shape of a field. Whether the items of a list may be null is not kept. -/
def fieldShape (defaultSource : Option String) (type : TypeRef) : Except BuildError FieldShape :=
  match stripList (stripNonNull type) with
  | (collection, .named name) =>
    .ok ⟨isNonNull type, collection, FieldType.ofName name defaultSource⟩
  | (_, rest) => .error (.typeShape rest.kind)

/-- A directive. Its name is read before its arguments. -/
def directive (naming : Naming) (applied : AppliedDirective) : Except BuildError Directive := do
  match naming.read? applied.name with
  | none => throw (.directiveName applied.name)
  | some name =>
    let args ← arguments applied.arguments
    return ⟨name.name, name.provider, args⟩

/-- The name of the directive that gives the source of a model. -/
def sourceDirective : String := "source"

/-- The name of its argument. -/
def sourceArgument : String := "name"

def isSource (applied : AppliedDirective) : Bool := applied.name == sourceDirective

/-- A field. -/
def field (options : Options) : Member → Except BuildError Field
  | .other kind => .error (.notField kind)
  | .field definition => do
    let shape ← fieldShape options.defaultSource definition.type
    let directives ← (definition.directives.filter (!isSource ·)).mapM
      (directive options.naming)
    return ⟨definition.name, shape.type, shape.nonNull, shape.collection, directives⟩

/-- A directive of a model. The one for the source has no provider. -/
def modelDirective (naming : Naming) (applied : AppliedDirective) : Except BuildError Directive :=
  directive (if isSource applied then .plain else naming) applied

/-- The first text that is given as the name of a source. -/
def sourceName? : List (String × Literal) → Option String
  | [] => none
  | (key, literal) :: rest =>
    match literal with
    | .text value => if key == sourceArgument then some value else sourceName? rest
    | _ => sourceName? rest

/-- The source that the first directive for it declares. -/
def declaredSource? (directives : List AppliedDirective) : Option String :=
  (directives.find? isSource).bind fun applied => sourceName? applied.arguments

/-- The source of a model. One that is declared empty does not fall back to the
default. -/
def source (options : Options) (type : ObjectType) : Except BuildError String :=
  let given := match declaredSource? type.directives with
    | some name => some name
    | none => options.defaultSource
  match given with
  | none => .error (.missingSource type.name)
  | some name => if name.isEmpty then .error (.missingSource type.name) else .ok name

/-- The model of an object type. -/
def model (options : Options) (type : ObjectType) : Except BuildError Model := do
  let source ← source options type
  let fields ← type.fields.mapM (field options)
  let directives ← type.directives.mapM (modelDirective options.naming)
  return ⟨type.name, source, fields, directives⟩

end SchemaModels.Build
