import SchemaModels.Proofs.Build.Faults

/-!
What a model that was built is made of: its source, one field for each field of the
object type, and one directive for each directive, in their order.
-/
namespace SchemaModels.Build

open Graphql

theorem directive_eq_ok_iff {naming : Naming} {applied : AppliedDirective} {d : Directive} :
    directive naming applied = .ok d ↔ ∃ name args, naming.read? applied.name = some name ∧
      arguments applied.arguments = .ok args ∧ ⟨name.name, name.provider, args⟩ = d := by
  unfold directive
  cases naming.read? applied.name with
  | none => simp [throw, throwThe, MonadExceptOf.throw]
  | some name => simp [bind_eq_ok_iff, pure, Except.pure]

/-- The source is the one that is stated, or else the default, and not empty. -/
theorem source_eq_ok_iff {options : Options} {type : ObjectType} {given : String} :
    source options type = .ok given ↔
      (statedSource? type.directives).or options.defaultSource = some given ∧ given ≠ "" := by
  have hGiven (name : String) :
      (if name = "" then .error (.missingSource type.name) else .ok name :
        Except BuildError String) = .ok given ↔ name = given ∧ given ≠ "" := by
    split_ifs with hEmpty
    · constructor
      · rintro ⟨⟩
      · rintro ⟨rfl, hName⟩
        exact (hName hEmpty).elim
    · constructor
      · rintro ⟨⟩
        exact ⟨rfl, hEmpty⟩
      · rintro ⟨rfl, -⟩
        rfl
  unfold source
  rw [declaredSource?_eq]
  cases statedSource? type.directives with
  | some name => simpa using hGiven name
  | none =>
      cases options.defaultSource with
      | none => simp
      | some name => simpa using hGiven name

theorem model_eq_ok_iff {options : Options} {type : ObjectType} {m : Model} :
    model options type = .ok m ↔
      m.name = type.name ∧ source options type = .ok m.source ∧
      List.Forall₂ (fun member f => field options member = .ok f) type.fields m.fields ∧
      List.Forall₂ (fun applied d => modelDirective options.naming applied = .ok d)
        type.directives m.directives := by
  simp only [model, bind_eq_ok_iff, mapM_eq_ok_iff, pure, Except.pure, Except.ok.injEq]
  constructor
  · rintro ⟨given, hSource, fields, hFields, directives, hDirectives, rfl⟩
    exact ⟨rfl, hSource, hFields, hDirectives⟩
  · rintro ⟨hName, hSource, hFields, hDirectives⟩
    exact ⟨m.source, hSource, m.fields, hFields, m.directives, hDirectives, by rw [← hName]⟩

end SchemaModels.Build
