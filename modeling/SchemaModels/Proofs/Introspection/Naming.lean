import SchemaModels.Proofs.Build.Naming
import SchemaModels.Proofs.Introspection.Boundary

/-!
Texts under the two conventions of names. The names in a text are names of the schema
language, so they have no line ends in them.
-/
namespace SchemaModels

open Graphql

theorem Graphql.IsName.newline_not_mem {name : String} (h : IsName name) : '\n' ∉ name.toList := by
  obtain ⟨first, rest, hName, hFirst, hRest⟩ := h
  rw [hName, List.mem_cons, not_or]
  constructor
  · rintro rfl
    revert hFirst
    decide
  · intro hMem
    have hPart := hRest _ hMem
    revert hPart
    decide

theorem Graphql.Document.annotations_wellFormed {constant : Bool} {document : Document}
    (h : document.WellFormed constant) :
    ∀ applied ∈ document.annotations, applied.WellFormed constant := by
  rw [annotations, List.forall_mem_flatMap]
  intro d hd
  have hDefinition := h d hd
  cases d with
  | declaration description declared =>
      cases declared with
      | object type =>
          rw [Definition.annotations, ObjectType.annotations, List.forall_mem_append,
            List.forall_mem_flatMap]
          refine ⟨fun member hMember => ?_, hDefinition.directives⟩
          have hField := hDefinition.fields member hMember
          cases member with
          | field definition => exact hField.2.2
          | other kind => exact hField.elim
      | _ => simp [Definition.annotations]
  | _ => simp [Definition.annotations]

/-- The names of the directives in a text are of one line. -/
theorem namesOfOneLine_of_parse {content : String} {document : Document}
    (h : Document.parse content = .ok document) : Build.NamesOfOneLine document.annotations := by
  intro applied hApplied
  have hWellFormed := Document.annotations_wellFormed (Document.parse_wellFormed h)
  exact (hWellFormed applied hApplied).1.newline_not_mem

theorem introspectText_eq_ok_iff {options : Build.Options} {label content : String}
    {models : List Model} :
    introspectText options label content = .ok models ↔ ∃ document,
      Document.parse content = .ok document ∧ Build.document options document = .ok models := by
  cases hParse : Document.parse content with
  | error e => simp [introspectText_parsing label hParse]
  | ok document =>
      cases hBuild : Build.document options document with
      | error e => simp [introspectText_building label hParse hBuild, hBuild]
      | ok built => simp [introspectText_ok label hParse hBuild, hBuild]

/-- A text gives models with providers exactly if it gives plain ones and all names
of its directives but that for the source can be split at their first underscore.
With the providers put back in front of the names the models are the plain ones. -/
theorem introspectText_provider_iff (default : Option String) (label content : String) :
    ((∃ models, introspectText ⟨default, .provider⟩ label content = .ok models) ↔
      (∃ models, introspectText ⟨default, .plain⟩ label content = .ok models) ∧
      ∀ document, Document.parse content = .ok document →
        ∀ applied ∈ document.annotations, applied.name ≠ Build.sourceDirective →
          ∃ first rest, applied.name.toList = first ++ '_' :: rest ∧ '_' ∉ first ∧
            first ≠ [] ∧ rest ≠ []) ∧
    ∀ split plain, introspectText ⟨default, .provider⟩ label content = .ok split →
      introspectText ⟨default, .plain⟩ label content = .ok plain →
      split.map Model.joined = plain := by
  cases hParse : Document.parse content with
  | error e => simp [introspectText_parsing label hParse]
  | ok document =>
      have hRestricts := Build.document_restricts default (namesOfOneLine_of_parse hParse)
      simp only [introspectText_eq_ok_iff, hParse, Except.ok.injEq, exists_eq_left', forall_eq']
      refine ⟨hRestricts.exists_ok_iff, fun split plain hSplit hPlain => ?_⟩
      exact Except.ok.inj ((hRestricts.sound hSplit).2.symm.trans hPlain)

end SchemaModels
