import SchemaModels.Proofs.Build.Naming
import SchemaModels.Proofs.Build.Outcome
import SchemaModels.Proofs.Build.TypeShape

/-!
What holds of every model beside the object type that it was built from. Fields and
directives stand for what is written, in the same order; what can be said of a name or
a reference on its own follows from where it was read.
-/
namespace SchemaModels

/-- Items that stand for each other do so in every way that each pair of them does. -/
theorem forall₂_imp_of_mem {α β : Type} {R S : α → β → Prop} {items : List α} {results : List β}
    (h : List.Forall₂ R items results) (hEach : ∀ a ∈ items, ∀ b, R a b → S a b) :
    List.Forall₂ S items results := by
  have hBoth := (List.forall₂_and_left _ _).mpr ⟨hEach, h⟩
  exact hBoth.imp fun a b hPair => hPair.1 b hPair.2

/-- A directive with a provider. Neither it nor the name is empty, and the first
underscore of what was written stands between them. -/
def Directive.IsQualified (d : Directive) : Prop :=
  ∃ provider, d.provider = some provider ∧ provider ≠ "" ∧ '_' ∉ provider.toList ∧ d.name ≠ ""

theorem Directive.IsQualified.provider_ne_none {d : Directive} (h : d.IsQualified) :
    d.provider ≠ none := by
  obtain ⟨provider, hProvider, -⟩ := h
  simp [hProvider]

/-- A directive without a provider stays as it is when its parts are joined. -/
theorem Directive.joined_of_none {d : Directive} (h : d.provider = none) : d.joined = d := by
  unfold joined
  rw [h]

namespace Build

open Graphql

/-- A directive of a model stands for one that is written: its name is what was written,
and its arguments are the values of those given. -/
structure DirectiveOf (applied : AppliedDirective) (d : Directive) : Prop where
  name : d.joined.name = applied.name
  args : arguments applied.arguments = .ok d.args

/-- A directive of a field. -/
structure FieldDirectiveOf (naming : Naming) (applied : AppliedDirective) (d : Directive) : Prop
    extends DirectiveOf applied d where
  notSource : d.name = sourceDirective → d.provider ≠ none
  plain : naming = .plain → d.provider = none
  qualified : naming = .provider → d.IsQualified

/-- A directive of a model itself. Only the one for the source goes without a provider
where names have providers. -/
structure ModelDirectiveOf (naming : Naming) (applied : AppliedDirective) (d : Directive) : Prop
    extends DirectiveOf applied d where
  plain : naming = .plain → d.provider = none
  source : naming = .provider → (d.provider = none ↔ applied.name = sourceDirective)
  qualified : naming = .provider → d.provider ≠ none → d.IsQualified

/-- A field stands for one that is written. Of its directives it leaves out exactly those
for the source. A reference names no scalar, and its source is the default. -/
structure FieldOf (options : Options) (definition : FieldDefinition) (f : Field) : Prop where
  name : f.name = definition.name
  shape : fieldShape options.defaultSource definition.type = .ok ⟨f.nonNull, f.collection, f.type⟩
  reference : ∀ model source, f.type = .reference model source →
    (∀ p : Primitive, p.scalar ≠ model) ∧ source = options.defaultSource
  directives : List.Forall₂ (FieldDirectiveOf options.naming)
    (definition.directives.filter (·.name ≠ sourceDirective)) f.directives

/-- A model stands for an object type, with one field for each of its fields and one
directive for each of its directives. -/
structure ModelOf (options : Options) (type : ObjectType) (m : Model) : Prop where
  name : m.name = type.name
  source : m.source ≠ ""
  fields : List.Forall₂ (fun member f => ∃ definition, member = .field definition ∧
    FieldOf options definition f) type.fields m.fields
  directives : List.Forall₂ (ModelDirectiveOf options.naming) type.directives m.directives

section

variable {applied : AppliedDirective} {d : Directive}

theorem directiveOf_of_plain (h : directive .plain applied = .ok d) :
    DirectiveOf applied d ∧ d.provider = none := by
  obtain ⟨name, args, hName, hArgs, rfl⟩ := directive_eq_ok_iff.mp h
  cases hName
  exact ⟨⟨rfl, hArgs⟩, rfl⟩

theorem directiveOf_of_provider (hLine : '\n' ∉ applied.name.toList)
    (h : directive .provider applied = .ok d) : DirectiveOf applied d ∧ d.IsQualified := by
  obtain ⟨name, args, hName, hArgs, rfl⟩ := directive_eq_ok_iff.mp h
  obtain ⟨first, rest, hRaw, hMark, hFirst, hRest, rfl⟩ :=
    (Naming.read?_provider_eq_some_iff hLine).mp hName
  have hJoined := congrArg Directive.name (joined_of_split hRaw args)
  exact ⟨⟨hJoined, hArgs⟩, String.ofList first, rfl, by simpa using hFirst, by simpa using hMark,
    by simpa using hRest⟩

theorem fieldDirectiveOf_of_ok {naming : Naming} (hLine : '\n' ∉ applied.name.toList)
    (hName : applied.name ≠ sourceDirective) (h : directive naming applied = .ok d) :
    FieldDirectiveOf naming applied d := by
  cases naming with
  | plain =>
      obtain ⟨hOf, hNone⟩ := directiveOf_of_plain h
      refine ⟨hOf, fun hSource => ?_, fun _ => hNone, nofun⟩
      have hWritten := hOf.name
      rw [Directive.joined_of_none hNone, hSource] at hWritten
      exact absurd hWritten.symm hName
  | provider =>
      obtain ⟨hOf, hQualified⟩ := directiveOf_of_provider hLine h
      exact ⟨hOf, fun _ => hQualified.provider_ne_none, nofun, fun _ => hQualified⟩

theorem modelDirectiveOf_of_ok {naming : Naming} (hLine : '\n' ∉ applied.name.toList)
    (h : modelDirective naming applied = .ok d) : ModelDirectiveOf naming applied d := by
  unfold modelDirective at h
  by_cases hSource : applied.name = sourceDirective
  · rw [if_pos ((isSource_iff applied).mpr hSource)] at h
    obtain ⟨hOf, hNone⟩ := directiveOf_of_plain h
    exact ⟨hOf, fun _ => hNone, fun _ => iff_of_true hNone hSource, fun _ hSome => absurd hNone hSome⟩
  · rw [if_neg fun hIs => hSource ((isSource_iff applied).mp hIs)] at h
    cases naming with
    | plain =>
        obtain ⟨hOf, hNone⟩ := directiveOf_of_plain h
        exact ⟨hOf, fun _ => hNone, nofun, nofun⟩
    | provider =>
        obtain ⟨hOf, hQualified⟩ := directiveOf_of_provider hLine h
        exact ⟨hOf, nofun, fun _ => iff_of_false hQualified.provider_ne_none hSource,
          fun _ _ => hQualified⟩

end

/-- The references in a shape are to models, of the default source. -/
theorem reference_of_fieldShape {default : Option String} {type : TypeRef} {shape : FieldShape}
    (h : fieldShape default type = .ok shape) {model : String} {source : Option String}
    (hType : shape.type = .reference model source) :
    (∀ p : Primitive, p.scalar ≠ model) ∧ source = default := by
  obtain ⟨name, hShape⟩ := fieldShape_eq_ok_iff.mp h
  by_cases hScalar : ∃ p : Primitive, p.scalar = name
  · obtain ⟨p, hp⟩ := hScalar
    rw [hShape.scalar p hp] at hType
    cases hType
  · have hNone := not_exists.mp hScalar
    rw [hShape.model hNone] at hType
    obtain ⟨rfl, rfl⟩ := FieldType.reference.inj hType
    exact ⟨hNone, rfl⟩

theorem fieldOf_of_ok {options : Options} {member : Member} {f : Field}
    (hLines : NamesOfOneLine member.directives) (h : field options member = .ok f) :
    ∃ definition, member = .field definition ∧ FieldOf options definition f := by
  cases member with
  | other kind => cases h
  | field definition =>
      obtain ⟨shape, hShape, hRest⟩ := bind_eq_ok_iff.mp h
      obtain ⟨directives, hDirectives, hBuilt⟩ := bind_eq_ok_iff.mp hRest
      obtain rfl := Except.ok.inj hBuilt
      refine ⟨definition, rfl, rfl, hShape, fun _ _ => reference_of_fieldShape hShape, ?_⟩
      rw [← filter_not_isSource]
      apply forall₂_imp_of_mem (mapM_eq_ok_iff.mp hDirectives)
      intro applied hApplied d hDirective
      obtain ⟨hMem, hOther⟩ := List.mem_filter.mp hApplied
      exact fieldDirectiveOf_of_ok (hLines applied hMem) (by simpa [isSource] using hOther)
        hDirective

theorem modelOf_of_ok {options : Options} {type : ObjectType} {m : Model}
    (hLines : NamesOfOneLine type.annotations) (h : model options type = .ok m) :
    ModelOf options type m := by
  rw [NamesOfOneLine, ObjectType.annotations, List.forall_mem_append,
    List.forall_mem_flatMap] at hLines
  obtain ⟨hName, hSource, hFields, hDirectives⟩ := model_eq_ok_iff.mp h
  refine ⟨hName, (source_eq_ok_iff.mp hSource).2, ?_, ?_⟩
  · apply forall₂_imp_of_mem hFields
    intro member hMember f hField
    exact fieldOf_of_ok (hLines.1 member hMember) hField
  · apply forall₂_imp_of_mem hDirectives
    intro applied hApplied d hDirective
    exact modelDirectiveOf_of_ok (hLines.2 applied hApplied) hDirective

/-- A document that is built consists of object types, and its models stand for them. -/
theorem modelOf_of_document {options : Options} {given : Document} {models : List Model}
    (hLines : NamesOfOneLine given.annotations) (h : document options given = .ok models) :
    List.Forall₂ (fun d m => ∃ description type, d = .declaration description (.object type) ∧
      ModelOf options type m) given.definitions models := by
  rw [NamesOfOneLine, Document.annotations, List.forall_mem_flatMap] at hLines
  apply forall₂_imp_of_mem (mapM_eq_ok_iff.mp h)
  intro d hd m hDefinition
  obtain ⟨description, type, rfl, hModel⟩ := definition_eq_ok_iff.mp hDefinition
  exact ⟨description, type, rfl, modelOf_of_ok (hLines _ hd) hModel⟩

end Build
end SchemaModels
