import Mathlib
import SchemaModels.Artifact.Encode
import SchemaModels.Proofs.Build.Values
import SchemaModels.Proofs.Introspection.Naming
import SchemaModels.Proofs.Json.Special
import SchemaModels.Proofs.Model.Coded

/-!
Artifacts that every reader of JSON accepts. A number of the schema that is too
large for a double becomes infinite, and the artifact then has a name that JSON
does not know. Nothing else can go wrong: the text is one line of visible ASCII,
and all other values are written in the grammar of JSON.
-/
namespace SchemaModels

open Graphql (Document)
open Json (AllFinite AllFiniteItems AllFiniteMembers)

namespace Value

/-- A double is a number and not infinite. -/
def IsFinite {τ : Type} : Value τ → Prop
  | .float x => x.isFinite = true
  | _ => True

theorem isFinite_mapTexts_iff {τ σ : Type} {f : τ → σ} {v : Value τ} :
    (v.mapTexts f).IsFinite ↔ v.IsFinite := by
  cases v <;> exact Iff.rfl

mutual
theorem encode_finite_iff (v : Value CodeText) : v.encode.AllFinite ↔ v.Every IsFinite := by
  cases v with
  | list items =>
      have hItems := encodeItems_finite_iff items
      simp [encode, AllFinite, AllFiniteMembers, Every, IsFinite, hItems]
  | object fields =>
      have hFields := encodeFields_finite_iff fields
      simp [encode, AllFinite, AllFiniteMembers, Every, IsFinite, hFields]
  | _ => simp [encode, AllFinite, AllFiniteMembers, Every, IsFinite]

theorem encodeItems_finite_iff (items : List (Value CodeText)) :
    AllFiniteItems (encodeItems items) ↔ EveryItem IsFinite items := by
  cases items with
  | nil => exact Iff.rfl
  | cons item rest => exact and_congr (encode_finite_iff item) (encodeItems_finite_iff rest)

theorem encodeFields_finite_iff (fields : List (CodeText × Value CodeText)) :
    AllFiniteMembers (encodeFields fields) ↔ EveryField IsFinite fields := by
  cases fields with
  | nil => exact Iff.rfl
  | cons field rest =>
      exact and_congr (encode_finite_iff field.2) (encodeFields_finite_iff rest)
end

end Value

/-- The items of a list are finite if the records of all of them are. -/
theorem Json.finiteItems_map_iff {α : Type} {encode : α → Json CodeText} {P : α → Prop}
    {items : List α} (h : ∀ item ∈ items, (encode item).AllFinite ↔ P item) :
    AllFiniteItems (items.map encode) ↔ ∀ item ∈ items, P item := by
  induction items with
  | nil => simp [AllFiniteItems]
  | cons item rest ih =>
      rw [List.forall_mem_cons] at h ⊢
      exact and_congr h.1 (ih h.2)

theorem FieldType.encode_finite (t : FieldType CodeText) : t.encode.AllFinite := by
  cases t with
  | primitive p => simp [encode, AllFinite, AllFiniteMembers]
  | reference model source =>
      cases source <;> simp [encode, Artifact.optionalMember, AllFinite, AllFiniteMembers]

theorem Directive.encode_finite_iff (d : Directive CodeText) :
    d.encode.AllFinite ↔ d.Every Value.IsFinite := by
  have hArgs := Value.encodeFields_finite_iff d.args
  cases hProvider : d.provider <;>
    simp [encode, hProvider, Artifact.optionalMember, AllFinite, AllFiniteMembers, Every,
      Value.Every, Value.IsFinite, hArgs]

theorem Field.encode_finite_iff (f : Field CodeText) :
    f.encode.AllFinite ↔ f.Every Value.IsFinite := by
  have hType := f.type.encode_finite
  have hDirectives := Json.finiteItems_map_iff fun d (_ : d ∈ f.directives) => d.encode_finite_iff
  simp [encode, AllFinite, AllFiniteMembers, Every, hType, hDirectives]

theorem Model.encode_finite_iff (m : Model CodeText) :
    m.encode.AllFinite ↔ m.Every Value.IsFinite := by
  have hFields := Json.finiteItems_map_iff fun f (_ : f ∈ m.fields) => f.encode_finite_iff
  have hDirectives := Json.finiteItems_map_iff fun d (_ : d ∈ m.directives) => d.encode_finite_iff
  simp [encode, AllFinite, AllFiniteMembers, Every, hFields, hDirectives]

/-- Doubles are not changed with the texts. -/
theorem Model.coded_finite_iff {τ : Type} [Coded τ] (m : Model τ) :
    m.coded.Every Value.IsFinite ↔ m.Every Value.IsFinite := by
  rw [coded, every_mapTexts_iff]
  simp only [Value.isFinite_mapTexts_iff]

theorem Artifact.encode_finite_iff (models : List (Model CodeText)) :
    (encode models).AllFinite ↔ ∀ m ∈ models, m.Every Value.IsFinite := by
  have hModels := Json.finiteItems_map_iff fun m (_ : m ∈ models) => m.encode_finite_iff
  simp [encode, AllFinite, AllFiniteMembers, hModels]

/-- An artifact is JSON exactly when all doubles of its models are finite. -/
theorem Artifact.write_isText_iff {τ : Type} [Coded τ] (models : List (Model τ)) :
    Json.IsText (write models) ↔ ∀ m ∈ models, m.Every Value.IsFinite := by
  rw [write, Json.render_isText_iff, encode_finite_iff, List.forall_mem_map]
  simp only [Model.coded_finite_iff]

/-- The artifact of a text is one line of visible ASCII. No double in it is NaN, and
it is JSON exactly when no number of the text was too large for a double. -/
theorem introspectText_portable {options : Build.Options} {label content : String}
    {models : List Model} (h : introspectText options label content = .ok models) :
    (∀ c ∈ (Artifact.write models).toList, Text.IsVisibleAscii c) ∧
      (∀ m ∈ models, m.Every Value.IsNumber) ∧
      (Json.IsText (Artifact.write models) ↔ ∀ m ∈ models, m.Every Value.IsFinite) := by
  obtain ⟨document, hParse, hBuild⟩ := introspectText_eq_ok_iff.mp h
  refine ⟨?_, ?_, Artifact.write_isText_iff models⟩
  · rw [Artifact.write, Json.render, String.toList_ofList]
    exact Json.write_visible _
  · exact Build.document_every Build.isGiven_isNumber (Document.parse_wellFormed hParse) hBuild

/-- A decimal number and a text with an escape. -/
theorem decimalArgument_portable :
    ∃ models, introspectText ⟨some "main", .plain⟩ "<string>"
        "type T @a(n: [-0.5e1], s: \"\\n\")" = .ok models ∧
      Json.IsText (Artifact.write models) := by
  have hParse : Document.parse "type T @a(n: [-0.5e1], s: \"\\n\")" =
      .ok ⟨[.declaration none (.object ⟨"T", [],
        [⟨"a", [("n", .list [.float "-0.5e1"]), ("s", .text "\n")]⟩], []⟩)]⟩ := by cbv
  have hBuild : Build.document ⟨some "main", .plain⟩ ⟨[.declaration none (.object ⟨"T", [],
      [⟨"a", [("n", .list [.float "-0.5e1"]), ("s", .text "\n")]⟩], []⟩)]⟩ =
        .ok [⟨"T", "main", [], [⟨"a", none, [("n", .list [.float (.ofDecimal true 5 0)]),
          ("s", .text "\n")]⟩]⟩] := by rfl
  have hFinite : (Binary64.ofDecimal true 5 0).isFinite = true := by decide
  have hText := introspectText_ok "<string>" hParse hBuild
  obtain ⟨-, -, hPortable⟩ := introspectText_portable hText
  refine ⟨_, hText, hPortable.mpr ?_⟩
  simp [Model.Every, Directive.Every, Value.Every, Value.EveryField, Value.EveryItem,
    Value.IsFinite, hFinite]

/-- A number that is too large for a double makes an artifact that is no JSON. -/
theorem infiniteArgument_notPortable :
    ∃ models, introspectText ⟨some "main", .plain⟩ "<string>" "type T @a(n: 1e999)" = .ok models ∧
      Artifact.write models = "\x7b\"v\":\"1\",\"models\":[\x7b\"name\":\"T\",\"source\":\"main\",\"fields\":[],\"directives\":[\x7b\"name\":\"a\",\"args\":\x7b\"n\":\x7b\"kind\":\"float\",\"value\":Infinity\x7d\x7d\x7d]\x7d]\x7d" ∧
      ¬Json.IsText (Artifact.write models) := by
  have hParse : Document.parse "type T @a(n: 1e999)" =
      .ok ⟨[.declaration none (.object ⟨"T", [], [⟨"a", [("n", .float "1e999")]⟩], []⟩)]⟩ := by cbv
  have hBuild : Build.document ⟨some "main", .plain⟩
      ⟨[.declaration none (.object ⟨"T", [], [⟨"a", [("n", .float "1e999")]⟩], []⟩)]⟩ =
        .ok [⟨"T", "main", [], [⟨"a", none, [("n", .float (.infinite false))]⟩]⟩] := by rfl
  refine ⟨_, introspectText_ok "<string>" hParse hBuild, by cbv, ?_⟩
  rw [Artifact.write_isText_iff]
  simp [Model.Every, Directive.Every, Value.Every, Value.EveryField, Value.IsFinite,
    Binary64.isFinite]

end SchemaModels
