import SchemaModels.Proofs.Build.Invariants
import SchemaModels.Proofs.Introspection.Values

/-!
What can be relied on in the models of a text. Each stands for the object type in its
place, all doubles in them are numbers, and what has a name is given once.
-/
namespace SchemaModels

open Graphql

/-- The models of a text stand for its object types, one for each definition and in
their order. All doubles in them are numbers, and neither the arguments of a directive
nor the fields of an object have a name twice. -/
theorem introspectText_modelOf {options : Build.Options} {label content : String}
    {models : List Model} (h : introspectText options label content = .ok models) :
    (∃ document, Document.parse content = .ok document ∧
      List.Forall₂ (fun d m => ∃ description type,
        d = .declaration description (.object type) ∧ Build.ModelOf options type m)
        document.definitions models) ∧
    ∀ m ∈ models, m.Every Value.IsNumber ∧ m.Every Value.HasDistinctKeys := by
  obtain ⟨document, hParse, hBuild⟩ := introspectText_eq_ok_iff.mp h
  have hNumbers := introspectText_every Build.isGiven_isNumber h
  have hKeys := introspectText_every Artifact.isDecoded_hasDistinctKeys.isGiven h
  refine ⟨⟨document, hParse, ?_⟩, fun m hm => ⟨hNumbers m hm, hKeys m hm⟩⟩
  exact Build.modelOf_of_document (namesOfOneLine_of_parse hParse) hBuild

/-- A type with two fields of one name. One of its directives is for the source, another
has a provider in front of that name, and an argument is given twice. -/
def crowdedType : String :=
  "type T @x_source @source(name: \"s\") \x7b a: [Int!] @x_y(k: 1, k: 2) @source a: U \x7d"

def crowdedModels : List Model := [⟨"T", "s",
  [⟨"a", .primitive .integer, false, true, [⟨"y", some "x", [("k", .integer 2)]⟩]⟩,
    ⟨"a", .reference "U" (some "main"), false, false, []⟩],
  [⟨"source", some "x", []⟩, ⟨"source", none, [("name", .text "s")]⟩]⟩]

theorem crowdedType_modelOf :
    introspectText ⟨some "main", .provider⟩ "<string>" crowdedType = .ok crowdedModels ∧
    ∃ document, Document.parse crowdedType = .ok document ∧
      List.Forall₂ (fun d m => ∃ description type,
        d = .declaration description (.object type) ∧
          Build.ModelOf ⟨some "main", .provider⟩ type m)
        document.definitions crowdedModels := by
  have hModels : introspectText ⟨some "main", .provider⟩ "<string>" crowdedType =
      .ok crowdedModels := by
    cbv
  exact ⟨hModels, (introspectText_modelOf hModels).1⟩

end SchemaModels
