import SchemaModels.Project.Load
import SchemaModels.Proofs.Yaml.Mapping

/-!
The first configuration of a project. Whatever its pattern is, it reads back as the
configuration of that pattern with everything else as usual.
-/
namespace SchemaModels.Config

open Yaml (entryData)

/-- The entries of a first configuration. -/
def starterEntries (pattern : String) : List (String × String) :=
  [("path", pattern), ("encoding", "utf-8"), ("directive-naming", Naming.plain.label)]

/-- The comment above the entries. -/
def starterComment : List Char := " GqlModel project configuration".toList

theorem starter_eq (pattern : String) : starter pattern = String.ofList
    ('#' :: (starterComment ++ '\n' :: Yaml.Lexer.writeEntries (starterEntries pattern))) := by
  have hHead : "# GqlModel project configuration\n".toList = '#' :: (starterComment ++ ['\n']) := by
    decide
  have hText : (starter pattern).toList =
      '#' :: (starterComment ++ '\n' :: Yaml.Lexer.writeEntries (starterEntries pattern)) := by
    unfold starter
    simp only [String.toList_append, hHead, Yaml.Lexer.writeEntries, starterEntries,
      List.flatMap_cons, List.flatMap_nil, List.append_assoc, List.cons_append, List.nil_append,
      List.append_nil]
  simp only [← hText, String.ofList_toList]

theorem isKey_starter (pattern : String) :
    ∀ entry ∈ starterEntries pattern, Yaml.Lexer.IsKey entry.1 := by
  have hForm : ∀ key ∈ ["path", "encoding", "directive-naming"], Yaml.Tag.ofForm key = .text := by
    with_unfolding_all decide
  simp only [starterEntries, List.forall_mem_cons] at hForm ⊢
  obtain ⟨hPath, hEncoding, hNaming, -⟩ := hForm
  exact ⟨⟨⟨'p', _, rfl, rfl⟩, List.all_eq_true.mp (by decide), by decide, hPath⟩,
    ⟨⟨'e', _, rfl, rfl⟩, List.all_eq_true.mp (by decide), by decide, hEncoding⟩,
    ⟨⟨'d', _, rfl, rfl⟩, List.all_eq_true.mp (by decide), by decide, hNaming⟩, by simp⟩

/-- The entries pass the check of a configuration. -/
theorem check_starter (foreign : String → Decoder) (order : SetOrder) (pattern : String) :
    check (.of (Encoding.codecs foreign) order) ((starterEntries pattern).map entryData) =
      .valid ⟨[pattern], "utf-8", none, .plain, none⟩ := rfl

/-- The text of a first configuration writes its entries. -/
theorem parseData_starter (pattern : String) :
    Yaml.Data.parse (starter pattern) =
      .ok (.mapping ((starterEntries pattern).map entryData)) := by
  have hComment : ∀ c ∈ starterComment, Yaml.isAllowed c = true ∧ Yaml.isBreak c = false :=
    List.forall_iff_forall_mem.mp (by decide)
  have hDistinct : ((starterEntries pattern).map (·.1)).Nodup := by
    change ["path", "encoding", "directive-naming"].Nodup
    decide
  rw [starter_eq]
  exact Yaml.Data.parse_entries hComment (isKey_starter pattern) hDistinct

/-- A first configuration is read as the one that its pattern asks for, whatever characters
the pattern has and however long it is, and whichever further encodings there are. -/
theorem parse_starter (foreign : String → Decoder) (order : SetOrder) (label pattern : String) :
    parse (.of (Encoding.codecs foreign) order) label (starter pattern) = .ok
      { path := [pattern]
        encoding := "utf-8"
        defaultSource := none
        naming := .plain
        output := none } := by
  unfold parse
  have hRead : (Platform.of (Encoding.codecs foreign) order).readYaml (starter pattern) =
      .ok (.mapping ((starterEntries pattern).map entryData)) := parseData_starter pattern
  rw [hRead]
  dsimp only
  rw [check_starter]
  rfl

end SchemaModels.Config
