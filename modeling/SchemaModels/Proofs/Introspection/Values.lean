import SchemaModels.Proofs.Artifact.Normal
import SchemaModels.Proofs.Build.Values
import SchemaModels.Proofs.Introspection.Once

/-!
What holds of all values in the models of a run. They are what the texts of its files
give, so the models of every run can be written to an artifact.
-/
namespace SchemaModels

variable {P : Value → Prop}

/-- What values get where they are read, whatever their texts are, they also get where
literals are built: their integers were read from texts. -/
theorem Value.IsDecoded.isGiven (h : IsDecoded (fun _ => True) P) : Build.IsGiven P where
  null := h.null
  boolean := h.boolean
  text s := h.text s trivial
  integer _ hRead := h.integer _ (Numeral.readInteger_isShort hRead)
  float _ := h.float _
  list := h.list
  object fields hKeys := h.object fields hKeys fun _ _ => trivial

variable (hGiven : Build.IsGiven P)
include hGiven

theorem introspectText_every {options : Build.Options} {label content : String}
    {models : List Model} (h : introspectText options label content = .ok models) :
    ∀ m ∈ models, m.Every P := by
  obtain ⟨document, hParse, hBuild⟩ := introspectText_eq_ok_iff.mp h
  exact Build.document_every hGiven (Graphql.Document.parse_wellFormed hParse) hBuild

/-- A run gives the models of its files, and the values in them have every property
that is given to values where they are built. -/
theorem introspect_every {codecs : Codecs} {tree : FileTree} {options : RunOptions}
    {models : List Model} (h : (introspect tree options codecs).outcome = .ok models) :
    ∀ m ∈ models, m.Every P := by
  obtain ⟨groups, hGroups, -, rfl⟩ := groups_of_introspect_ok h
  rw [List.forall_mem_flatMap]
  intro group hGroup
  obtain ⟨content, -, hText⟩ := introspectFile_eq_ok_iff.mp (hGroups group hGroup)
  exact introspectText_every hGiven hText

end SchemaModels
