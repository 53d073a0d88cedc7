import SchemaModels.Proofs.Build.Outcome
import SchemaModels.Proofs.Build.Parts

/-!
Where the default source of a building goes. It is the source of the models that state
none and of all references, and of nothing else. So two buildings that differ in their
default sources only get to models that differ there only, or fail with one error; and
a building without a default fails at the first model that states no source.
-/
namespace SchemaModels

/-- The type with a source for the model that it refers to, if it is a reference. -/
def FieldType.withSource (source : Option String) : FieldType → FieldType
  | .primitive kind => .primitive kind
  | .reference model _ => .reference model source

def Field.withSource (source : Option String) (f : Field) : Field :=
  { f with type := f.type.withSource source }

/-- The model with a source for all its references. -/
def Model.withReferences (source : Option String) (m : Model) : Model :=
  { m with fields := m.fields.map (Field.withSource source) }

namespace Build

open Graphql

/-- An object type states no source: it has no directive for the source, or the first
one gives no text by the name of the argument. -/
def StatesNoSource (type : ObjectType) : Prop :=
  ∀ before applied after, type.directives = before ++ applied :: after →
    (∀ other ∈ before, other.name ≠ sourceDirective) → applied.name = sourceDirective →
    ∀ text, (sourceArgument, Literal.text text) ∉ applied.arguments

theorem statesNoSource_iff {type : ObjectType} :
    StatesNoSource type ↔ statedSource? type.directives = none := by
  constructor
  · intro h
    unfold statedSource?
    cases hFind : type.directives.find? (·.name = sourceDirective) with
    | none => rfl
    | some applied =>
        obtain ⟨hName, before, after, hSplit, hBefore⟩ := List.find?_eq_some_iff_append.mp hFind
        have hTexts := h before applied after hSplit (by simpa using hBefore) (by simpa using hName)
        rw [List.findSome?_eq_none_iff]
        rintro ⟨key, literal⟩ hArgument
        cases literal with
        | text value =>
            have hKey : key ≠ sourceArgument := by
              rintro rfl
              exact hTexts value hArgument
            exact if_neg hKey
        | _ => rfl
  · intro h before applied after hSplit hBefore hName text hText
    have hFind : type.directives.find? (·.name = sourceDirective) = some applied :=
      List.find?_eq_some_iff_append.mpr
        ⟨by simpa using hName, before, after, hSplit, by simpa using hBefore⟩
    simp only [statedSource?, hFind, List.findSome?_eq_none_iff] at h
    simpa using h _ hText

instance (type : ObjectType) : Decidable (StatesNoSource type) :=
  decidable_of_iff _ statesNoSource_iff.symm

/-- A definition is that of a model which states no source. -/
def LacksSource : Definition → Prop
  | .declaration _ (.object type) => StatesNoSource type
  | _ => False

instance : DecidablePred LacksSource := fun d =>
  match d with
  | .declaration _ (.object type) => inferInstanceAs (Decidable (StatesNoSource type))
  | .declaration _ (.schema ..) | .declaration _ (.scalar ..) | .declaration _ (.interface _)
  | .declaration _ (.union ..) | .declaration _ (.enum ..) | .declaration _ (.input ..)
  | .operation _ | .fragment _ | .directive .. | .extension _ | .other _ => .isFalse id

/-- The model of a definition with another default source: in all its references, and
as its own source if it states none. -/
def withDefault (source : String) (d : Definition) (m : Model) : Model :=
  if LacksSource d then { m.withReferences (some source) with source }
  else m.withReferences (some source)

/-! One building beside the other. -/

theorem ofName_withSource (name : String) (first second : Option String) :
    FieldType.ofName name second = (FieldType.ofName name first).withSource second := by
  unfold FieldType.ofName
  cases Primitive.ofScalar? name with
  | none => rfl
  | some kind => rfl

theorem fieldShape_withSource (first second : Option String) (type : TypeRef) :
    fieldShape second type = (fieldShape first type).map fun shape =>
      { shape with type := shape.type.withSource second } := by
  unfold fieldShape
  split
  · rw [ofName_withSource _ first second]
    rfl
  · rfl

/-- The default source of a field is that of its reference. -/
theorem field_withSource (naming : Naming) (first second : Option String) (member : Member) :
    field ⟨second, naming⟩ member =
      (field ⟨first, naming⟩ member).map (Field.withSource second) := by
  cases member with
  | other kind => rfl
  | field definition =>
      refine bind_eq_map (fieldShape_withSource first second definition.type) fun shape => ?_
      exact bind_pure_eq_map _ fun directives => rfl

/-- A default source that is not empty is the source exactly where none is stated. -/
theorem source_withDefault (naming : Naming) {first second : String} (hFirst : first ≠ "")
    (hSecond : second ≠ "") (type : ObjectType) :
    source ⟨some second, naming⟩ type = (source ⟨some first, naming⟩ type).map fun given =>
      if StatesNoSource type then second else given := by
  unfold source
  rw [declaredSource?_eq]
  cases hStated : statedSource? type.directives with
  | none =>
      have hNone := statesNoSource_iff.mpr hStated
      simp [hNone, hFirst, hSecond, Except.map]
  | some name =>
      have hSome : ¬StatesNoSource type := by simp [statesNoSource_iff, hStated]
      by_cases hName : name = ""
      · simp [hName, Except.map]
      · simp [hName, hSome, Except.map]

theorem model_withDefault (naming : Naming) {first second : String} (hFirst : first ≠ "")
    (hSecond : second ≠ "") (description : Option String) (type : ObjectType) :
    model ⟨some second, naming⟩ type = (model ⟨some first, naming⟩ type).map
      (withDefault second (.declaration description (.object type))) := by
  have hFields := mapM_eq_map fun member (_ : member ∈ type.fields) =>
    field_withSource naming (some first) (some second) member
  refine bind_eq_map (source_withDefault naming hFirst hSecond type) fun given => ?_
  refine bind_eq_map hFields fun fields => bind_pure_eq_map _ fun directives => ?_
  have hLacks : LacksSource (.declaration description (.object type)) ↔ StatesNoSource type :=
    Iff.rfl
  by_cases hNone : StatesNoSource type
  · simp [withDefault, hLacks, hNone, Model.withReferences]
  · simp [withDefault, hLacks, hNone, Model.withReferences]

theorem definition_withDefault (naming : Naming) {first second : String} (hFirst : first ≠ "")
    (hSecond : second ≠ "") (d : Definition) :
    definition ⟨some second, naming⟩ d =
      (definition ⟨some first, naming⟩ d).map (withDefault second d) := by
  cases d with
  | declaration description declared =>
      cases declared with
      | object type => exact model_withDefault naming hFirst hSecond description type
      | _ => rfl
  | _ => rfl

/-- A document under two default sources. -/
theorem document_withDefault (naming : Naming) {first second : String} (hFirst : first ≠ "")
    (hSecond : second ≠ "") (given : Document) :
    document ⟨some second, naming⟩ given = (document ⟨some first, naming⟩ given).map
      (List.zipWith (withDefault second) given.definitions) :=
  mapM_eq_zipWith fun d _ => definition_withDefault naming hFirst hSecond d

/-! A building without a default. -/

/-- Where a source is stated the default does not matter to it. -/
theorem source_of_states {type : ObjectType} (h : ¬StatesNoSource type) (naming : Naming)
    (first second : Option String) :
    source ⟨second, naming⟩ type = source ⟨first, naming⟩ type := by
  rw [statesNoSource_iff] at h
  obtain ⟨name, hName⟩ := Option.ne_none_iff_exists'.mp h
  simp only [source, declaredSource?_eq, hName]

theorem source_of_statesNone {type : ObjectType} (h : StatesNoSource type) (naming : Naming) :
    source ⟨none, naming⟩ type = .error (.missingSource type.name) := by
  simp only [source, declaredSource?_eq, statesNoSource_iff.mp h]

/-- Where a source is stated the default goes to the references only. -/
theorem model_withReferences {type : ObjectType} (h : ¬StatesNoSource type) (naming : Naming)
    (first second : Option String) :
    model ⟨second, naming⟩ type =
      (model ⟨first, naming⟩ type).map (Model.withReferences second) := by
  have hFields := mapM_eq_map fun member (_ : member ∈ type.fields) =>
    field_withSource naming first second member
  have hSource : source ⟨second, naming⟩ type = (source ⟨first, naming⟩ type).map id := by
    rw [source_of_states h naming first second]
    cases source ⟨first, naming⟩ type with
    | error e => rfl
    | ok given => rfl
  refine bind_eq_map hSource fun given => ?_
  refine bind_eq_map hFields fun fields => ?_
  exact bind_pure_eq_map _ fun directives => rfl

section

variable {naming : Naming} {default : String} {e : BuildError}

/-- Without a default a model that can be built with one is missing its source, or it
states one. -/
theorem model_without {type : ObjectType} {m : Model}
    (h : model ⟨some default, naming⟩ type = .ok m) :
    model ⟨none, naming⟩ type = if StatesNoSource type then .error (.missingSource type.name)
      else .ok (m.withReferences none) := by
  split_ifs with hNone
  · rw [model, source_of_statesNone hNone]
    rfl
  · rw [model_withReferences hNone naming (some default), h]
    rfl

theorem definition_without_eq_ok_iff {d : Definition} {m : Model}
    (h : definition ⟨some default, naming⟩ d = .ok m) :
    (∃ m, definition ⟨none, naming⟩ d = .ok m) ↔ ¬LacksSource d := by
  obtain ⟨description, type, rfl, hModel⟩ := definition_eq_ok_iff.mp h
  rw [definition, model_without hModel, LacksSource]
  split_ifs with hNone <;> simp [hNone]

theorem definition_without_eq_error_iff {d : Definition} {m : Model}
    (h : definition ⟨some default, naming⟩ d = .ok m) :
    definition ⟨none, naming⟩ d = .error e ↔ ∃ description type,
      d = .declaration description (.object type) ∧ StatesNoSource type ∧
      e = .missingSource type.name := by
  obtain ⟨description, type, rfl, hModel⟩ := definition_eq_ok_iff.mp h
  rw [definition, model_without hModel]
  split_ifs with hNone <;> simp [hNone, eq_comm]

/-- What can be built with some default fails without one at the first model that
states no source. -/
theorem document_without_eq_error_iff {given : Document} {models : List Model}
    (h : document ⟨some default, naming⟩ given = .ok models) :
    document ⟨none, naming⟩ given = .error e ↔ ∃ before description type after,
      given.definitions = before ++ .declaration description (.object type) :: after ∧
      (∀ d ∈ before, ¬LacksSource d) ∧ StatesNoSource type ∧ e = .missingSource type.name := by
  have hItems := exists_ok_of_mapM h
  rw [document, mapM_eq_error_iff]
  constructor
  · rintro ⟨before, failing, after, hSplit, hBefore, hFailing⟩
    rw [hSplit, List.forall_mem_append, List.forall_mem_cons] at hItems
    obtain ⟨hItemsBefore, ⟨m, hm⟩, -⟩ := hItems
    obtain ⟨description, type, rfl, hNone, rfl⟩ := (definition_without_eq_error_iff hm).mp hFailing
    refine ⟨before, description, type, after, hSplit, fun d hd => ?_, hNone, rfl⟩
    obtain ⟨m, hm⟩ := hItemsBefore d hd
    exact (definition_without_eq_ok_iff hm).mp (hBefore d hd)
  · rintro ⟨before, description, type, after, hSplit, hBefore, hNone, rfl⟩
    rw [hSplit, List.forall_mem_append, List.forall_mem_cons] at hItems
    obtain ⟨hItemsBefore, ⟨m, hm⟩, -⟩ := hItems
    refine ⟨before, _, after, hSplit, fun d hd => ?_,
      (definition_without_eq_error_iff hm).mpr ⟨description, type, rfl, hNone, rfl⟩⟩
    obtain ⟨m, hm⟩ := hItemsBefore d hd
    exact (definition_without_eq_ok_iff hm).mpr (hBefore d hd)

end

/-- What is built without a default is built with each, and gets it in its references
only. -/
theorem document_withReferences {naming : Naming} {given : Document} {models : List Model}
    (h : document ⟨none, naming⟩ given = .ok models) (default : Option String) :
    document ⟨default, naming⟩ given = .ok (models.map (Model.withReferences default)) := by
  have hItems : ∀ d ∈ given.definitions, definition ⟨default, naming⟩ d =
      (definition ⟨none, naming⟩ d).map (Model.withReferences default) := by
    intro d hd
    obtain ⟨m, hm⟩ := exists_ok_of_mapM h d hd
    obtain ⟨description, type, rfl, hModel⟩ := definition_eq_ok_iff.mp hm
    refine model_withReferences (fun hNone => ?_) naming none default
    rw [model, source_of_statesNone hNone] at hModel
    cases hModel
  have hRun := mapM_eq_map hItems
  rw [← document, ← document, h] at hRun
  exact hRun

/-- The default source goes to the models that state no source and to all references,
and nowhere else. Two defaults that are not empty give one failure, or models that
differ there only. What is built without a default is built with each, which then
stands in the references. What is built with some default only fails without one at
the first model that states no source. -/
theorem document_defaultSource (naming : Naming) (given : Document) :
    (∀ first second : String, first ≠ "" → second ≠ "" →
      (∀ e, document ⟨some first, naming⟩ given = .error e ↔
        document ⟨some second, naming⟩ given = .error e) ∧
      ∀ models, document ⟨some first, naming⟩ given = .ok models →
        models = given.definitions.zipWith (withDefault first) models ∧
        document ⟨some second, naming⟩ given =
          .ok (given.definitions.zipWith (withDefault second) models)) ∧
    (∀ models, document ⟨none, naming⟩ given = .ok models →
      models = models.map (Model.withReferences none) ∧
      ∀ default, document ⟨some default, naming⟩ given =
        .ok (models.map (Model.withReferences (some default)))) ∧
    (∀ default models, document ⟨some default, naming⟩ given = .ok models →
      ∀ e, document ⟨none, naming⟩ given = .error e ↔ ∃ before description type after,
        given.definitions = before ++ .declaration description (.object type) :: after ∧
        (∀ d ∈ before, ¬LacksSource d) ∧ StatesNoSource type ∧
        e = .missingSource type.name) := by
  refine ⟨fun first second hFirst hSecond => ⟨fun e => ?_, fun models h => ⟨?_, ?_⟩⟩,
    fun models h => ⟨?_, fun default => document_withReferences h _⟩,
    fun default models h e => document_without_eq_error_iff h⟩
  · rw [document_withDefault naming hFirst hSecond]
    cases document ⟨some first, naming⟩ given <;> simp [Except.map]
  · have hSelf := document_withDefault naming hFirst hFirst given
    rw [h] at hSelf
    exact Except.ok.inj hSelf
  · rw [document_withDefault naming hFirst hSecond, h]
    rfl
  · have hSelf := document_withReferences h none
    rw [h] at hSelf
    exact Except.ok.inj hSelf

/-- Two types that refer to each other. The directive for the source of the first has
no name. -/
def mixedSources : Document := ⟨[
  .declaration none (.object ⟨"User", [], [⟨"source", [("key", .text "crm")]⟩],
    [.field ⟨none, "posts", [], .list (.named "Post"), []⟩]⟩),
  .declaration none (.object ⟨"Post", [], [⟨"source", [("name", .text "blog")]⟩],
    [.field ⟨none, "by", [], .nonNull (.named "User"), []⟩,
      .field ⟨none, "id", [], .named "ID", []⟩]⟩)]⟩

/-- The models of these types with a default source. -/
def mixedModels (default : String) : List Model := [
  ⟨"User", default, [⟨"posts", .reference "Post" (some default), false, true, []⟩],
    [⟨"source", none, [("key", .text "crm")]⟩]⟩,
  ⟨"Post", "blog", [⟨"by", .reference "User" (some default), true, false, []⟩,
    ⟨"id", .primitive .uuid, false, false, []⟩],
    [⟨"source", none, [("name", .text "blog")]⟩]⟩]

theorem mixedSources_defaultSource :
    document ⟨some "main", .plain⟩ mixedSources = .ok (mixedModels "main") ∧
      document ⟨some "test", .plain⟩ mixedSources = .ok (mixedModels "test") ∧
      document ⟨none, .plain⟩ mixedSources = .error (.missingSource "User") := by
  have hMain : document ⟨some "main", .plain⟩ mixedSources = .ok (mixedModels "main") := by rfl
  have hUser : StatesNoSource ⟨"User", [], [⟨"source", [("key", .text "crm")]⟩],
      [.field ⟨none, "posts", [], .list (.named "Post"), []⟩]⟩ := by decide
  obtain ⟨hTwo, -, hNone⟩ := document_defaultSource .plain mixedSources
  have hTest := ((hTwo "main" "test" (by decide) (by decide)).2 _ hMain).2
  refine ⟨hMain, hTest.trans ?_, (hNone "main" _ hMain _).mpr ?_⟩
  · rfl
  · exact ⟨[], none, _, _, rfl, by simp, hUser, rfl⟩

end Build
end SchemaModels
