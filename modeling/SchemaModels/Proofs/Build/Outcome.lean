import SchemaModels.Proofs.Build.FaultKinds

/-!
When building the models of a document fails, with what, and what an observer is
told of it.
-/
namespace SchemaModels.Build

open Graphql

theorem definition_eq_ok_iff {options : Options} {d : Definition} {m : Model} :
    definition options d = .ok m ↔ ∃ description type,
      d = .declaration description (.object type) ∧ model options type = .ok m := by
  cases d with
  | declaration description declared =>
      cases declared with
      | object type => simp [definition]
      | _ => simp [definition]
  | _ => simp [definition]

theorem definition_eq_error_iff {options : Options} {d : Definition} {e : BuildError} :
    definition options d = .error e ↔
      (∃ description type, d = .declaration description (.object type) ∧
        model options type = .error e) ∨
      (∀ description type, d ≠ .declaration description (.object type)) ∧
        e = .unsupportedDefinition d.kind := by
  cases d with
  | declaration description declared =>
      cases declared with
      | object type => simp [definition]
      | _ => simp [definition, eq_comm]
  | _ => simp [definition, eq_comm]

section

variable {σ : Type} (observer : Option (Observer σ)) (options : Options)

/-- An observer hears nothing of a document that fails. -/
theorem observedDocument_error {given : Document} {e : BuildError}
    (h : document options given = .error e) (held : σ) :
    observedDocument observer options given held = (.error e, held) := by
  rw [observedDocument, h]

/-- Of one that succeeds it hears all models, in their order. -/
theorem observedDocument_ok {given : Document} {models : List Model}
    (h : document options given = .ok models) (held : σ) :
    observedDocument observer options given held =
      (.ok models, Observer.tellModels observer held models) := by
  rw [observedDocument, h]

/-- A document succeeds exactly if all its definitions are object types that have
a model. Otherwise the first that does not decides: with its kind, or with the
first thing that is wrong with the object type in the order of `modelFaults`. No
observer hears of a failing document. With parsed shapes and numbers that can be
held, only the schema can be wrong. -/
theorem document_first_failure (given : Document) :
    (∀ models, document options given = .ok models ↔
      List.Forall₂ (fun d m => ∃ description type,
        d = .declaration description (.object type) ∧ model options type = .ok m)
        given.definitions models) ∧
    (∀ e, document options given = .error e ↔ ∃ before failing after,
      given.definitions = before ++ failing :: after ∧
      (∀ d ∈ before, ∃ m description type,
        d = .declaration description (.object type) ∧ model options type = .ok m) ∧
      ((∃ description type, failing = .declaration description (.object type) ∧
          (modelFaults options type).head? = some e) ∨
        (∀ description type, failing ≠ .declaration description (.object type)) ∧
          e = .unsupportedDefinition failing.kind)) ∧
    (∀ type e, model options type = .error e ↔ (modelFaults options type).head? = some e) ∧
    (∀ held, observedDocument observer options given held =
      match document options given with
      | .ok models => (.ok models, Observer.tellModels observer held models)
      | .error e => (.error e, held)) ∧
    (given.WellFormed false → given.IntegersFit →
      ∀ e, document options given = .error e → IsSchemaFault e) := by
  have hModel (type : ObjectType) (e : BuildError) := model_failsFirst options type e
  refine ⟨fun models => ?_, fun e => ?_, hModel, fun held => ?_, fun hShape hFit e he => ?_⟩
  · simp only [document, mapM_eq_ok_iff, definition_eq_ok_iff]
  · simp only [document, mapM_eq_error_iff, definition_eq_error_iff, definition_eq_ok_iff, hModel]
  · cases h : document options given with
    | ok models => exact observedDocument_ok observer options h held
    | error e => exact observedDocument_error observer options h held
  · have hHead := (document_failsFirst options given e).mp he
    exact faults_of_fit options hShape hFit e (List.mem_of_mem_head? hHead)

end

/-- Two types. The source of the second is empty, its field is a list in a list,
and a variable stands among the arguments of a directive. -/
def faultyDocument : Document := ⟨[
  .declaration none (.object ⟨"Order", [], [], [.field ⟨none, "id", [], .named "ID", []⟩]⟩),
  .declaration none (.object ⟨"User", [],
    [⟨"source", [("name", .text "")]⟩, ⟨"cache", [("ttl", .integer "60"), ("key", .variable "k")]⟩],
    [.field ⟨none, "tags", [], .list (.list (.named "String")), []⟩]⟩)]⟩

theorem faultyDocument_missingSource :
    faultyDocument.WellFormed false ∧ faultyDocument.IntegersFit ∧
      document ⟨some "main", .plain⟩ faultyDocument = .error (.missingSource "User") ∧
      IsSchemaFault (.missingSource "User") := by
  have hSixty : IsIntegerLexeme "60" :=
    @isIntegerLexeme_of_isWhole ['6', '0'] ⟨by simp, by simp [Numeral.isDecimalDigit], by simp⟩
  have hShape : faultyDocument.WellFormed false := by
    simp only [Document.WellFormed, faultyDocument, List.forall_mem_cons, Definition.WellFormed]
    refine ⟨⟨by decide, by simp, ?_⟩, ⟨by decide, ?_, ?_⟩, by simp⟩
    · simp only [List.forall_mem_cons, Member.WellFormed, TypeRef.WellFormed]
      exact ⟨⟨by decide, by decide, by simp⟩, by simp⟩
    · simp only [List.forall_mem_cons, AppliedDirective.WellFormed, WellFormedEntries,
        Literal.WellFormed, Literal.Leaves, Literal.LeafWellFormed]
      exact ⟨⟨by decide, ⟨by decide, trivial⟩, by simp⟩,
        ⟨by decide, ⟨by decide, hSixty⟩, ⟨by decide, trivial, by decide⟩, by simp⟩, by simp⟩
    · simp only [List.forall_mem_cons, Member.WellFormed, TypeRef.WellFormed]
      exact ⟨⟨by decide, by decide, by simp⟩, by simp⟩
  have hFit : faultyDocument.IntegersFit := by
    have hLiterals : faultyDocument.literals = [.text "", .integer "60", .variable "k"] := rfl
    rw [Document.IntegersFit, hLiterals]
    simp only [List.forall_mem_cons, Literal.IntegersFit, Literal.Leaves, Literal.LeafFits]
    exact ⟨trivial, by decide, trivial, by simp⟩
  have hError : document ⟨some "main", .plain⟩ faultyDocument = .error (.missingSource "User") := by
    rfl
  exact ⟨hShape, hFit, hError,
    (document_first_failure (some Observer.recorder) ⟨some "main", .plain⟩ faultyDocument).2.2.2.2
      hShape hFit _ hError⟩

end SchemaModels.Build
