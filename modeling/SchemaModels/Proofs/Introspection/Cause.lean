import Mathlib
import SchemaModels.Proofs.Introspection.Naming

/-!
What a text can fail with. Parsing leaves only constants among the arguments of
directives, only fields in types, and no mark for non-null behind another, so of
the faults that building knows a few are left.
-/
namespace SchemaModels

open Graphql

/-- A name is refused only under the convention with providers, and only if it does
not split. -/
theorem Naming.provider_of_refused {naming : Naming} {name : String} (hName : IsName name)
    (h : naming.read? name = none) : naming = .provider ∧ ¬Splits name := by
  cases naming with
  | plain => cases h
  | provider =>
      refine ⟨rfl, ?_⟩
      rintro ⟨first, rest, hRaw, hMark, hFirst, hRest⟩
      have hRead := (read?_provider_eq_some_iff hName.newline_not_mem).mpr
        ⟨first, rest, hRaw, hMark, hFirst, hRest, rfl⟩
      rw [h] at hRead
      cases hRead

/-- A text fails as no document, for a reason of its schema, or for the length of an
integer. The reasons are a definition that is no object type, a model without a
source, a list in a list, and under the convention with providers a name that does
not split at its first underscore. -/
theorem introspectText_failure {options : Build.Options} {label content : String}
    {failure : IntrospectionFailure}
    (h : introspectText options label content = .error failure) :
    (∃ e, failure = .reported (.parsing label e)) ∨
      (∃ e, failure = .reported (.building label e) ∧
        ((∃ kind, kind ≠ .objectTypeDefinition ∧ e = .unsupportedDefinition kind) ∨
          (∃ name, e = .missingSource name) ∨
          e = .typeShape .listType ∨
          options.naming = .provider ∧ ∃ name, ¬Splits name ∧ e = .directiveName name)) ∨
      ∃ count, maxIntegerDigits < count ∧ failure = .numeral (.tooManyDigits count) := by
  rcases introspectText_cases options label content with
    ⟨models, hOk⟩ | ⟨e, -, hError⟩ | ⟨document, e, hParse, hBuild, hSchema, hError⟩ |
      ⟨count, hLong, -, hError⟩
  · rw [h] at hOk
    cases hOk
  · exact Or.inl ⟨e, Except.error.inj (h.symm.trans hError)⟩
  · refine Or.inr (Or.inl ⟨e, Except.error.inj (h.symm.trans hError), ?_⟩)
    have hHead := (Build.document_failsFirst options document e).mp hBuild
    rcases Build.faults_of_constant options (Document.parse_wellFormed hParse) e
      (List.mem_of_mem_head? hHead) with hRefusal | ⟨count, -, rfl⟩
    · cases hRefusal with
      | unsupportedDefinition hKind => exact Or.inl ⟨_, hKind, rfl⟩
      | missingSource name => exact Or.inr (Or.inl ⟨name, rfl⟩)
      | typeShape => exact Or.inr (Or.inr (Or.inl rfl))
      | directiveName hName hRefused =>
          obtain ⟨hNaming, hSplits⟩ := Naming.provider_of_refused hName hRefused
          exact Or.inr (Or.inr (Or.inr ⟨hNaming, _, hSplits, rfl⟩))
    · cases hSchema
  · exact Or.inr (Or.inr ⟨count, hLong, Except.error.inj (h.symm.trans hError)⟩)

/-- A field that is a list of lists. -/
theorem nestedList_failure :
    introspectText ⟨some "main", .plain⟩ "<string>" "type T { f: [[Int!]]! }" =
        .error (.reported (.building "<string>" (.typeShape .listType))) ∧
      ((∃ kind, kind ≠ Kind.objectTypeDefinition ∧
          BuildError.typeShape .listType = .unsupportedDefinition kind) ∨
        (∃ name, BuildError.typeShape .listType = .missingSource name) ∨
        BuildError.typeShape .listType = .typeShape .listType ∨
        Naming.plain = .provider ∧ ∃ name, ¬Splits name ∧
          BuildError.typeShape .listType = .directiveName name) := by
  have hFailure : introspectText ⟨some "main", .plain⟩ "<string>" "type T { f: [[Int!]]! }" =
      .error (.reported (.building "<string>" (.typeShape .listType))) := by cbv
  refine ⟨hFailure, ?_⟩
  rcases introspectText_failure hFailure with ⟨e, h⟩ | ⟨e, h, hCause⟩ | ⟨count, -, h⟩
  · cases h
  · cases h
    exact hCause
  · cases h

/-- Only the first underscore counts: a name can be refused although another one has
a text on either side. -/
theorem secondUnderscore_refused :
    introspectText ⟨some "main", .provider⟩ "<string>" "type T @_a_b" =
        .error (.reported (.building "<string>" (.directiveName "_a_b"))) ∧
      ∃ first rest, "_a_b".toList = first ++ '_' :: rest ∧ first ≠ [] ∧ rest ≠ [] :=
  ⟨by cbv, ['_', 'a'], ['b'], by decide, by decide, by decide⟩

end SchemaModels
