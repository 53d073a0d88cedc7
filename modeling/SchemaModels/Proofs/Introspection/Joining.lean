import Mathlib
import SchemaModels.Proofs.Files.Written
import SchemaModels.Proofs.Graphql.Definitions
import SchemaModels.Proofs.Graphql.Joined
import SchemaModels.Proofs.Introspection.Naming
import SchemaModels.Proofs.Introspection.Trace

/-!
Schemas in several texts. It makes no difference to the models whether a schema is
one text or is split between its definitions into several texts or files.
-/
namespace SchemaModels

open Graphql (Definition Tokens)

/-- Only object types are built. -/
theorem Build.isObject_of_definition {options : Build.Options} {given : Definition} {m : Model}
    (h : Build.definition options given = .ok m) : given.IsObject := by
  match given with
  | .declaration description (.object type) => exact ⟨description, type, rfl⟩
  | .declaration _ (.schema ..) => cases h
  | .declaration _ (.scalar ..) => cases h
  | .declaration _ (.interface ..) => cases h
  | .declaration _ (.union ..) => cases h
  | .declaration _ (.enum ..) => cases h
  | .declaration _ (.input ..) => cases h
  | .operation _ => cases h
  | .fragment _ => cases h
  | .directive .. => cases h
  | .extension _ => cases h

section

variable {options : Build.Options} {label : String}

/-- A text has models if it defines object types, at least one, that have models. -/
theorem introspectText_iff_defines {content : String} {models : List Model} :
    introspectText options label content = .ok models ↔
      ∃ definitions, definitions ≠ [] ∧
        Graphql.Parser.Defines (Tokens.ofText content) definitions ∧
        definitions.mapM (Build.definition options) = .ok models := by
  have hObjects {definitions : List Definition}
      (hBuild : definitions.mapM (Build.definition options) = .ok models) :
      ∀ definition ∈ definitions, definition.IsObject := by
    intro definition hMem
    obtain ⟨m, hModel⟩ := exists_ok_of_mapM hBuild definition hMem
    exact Build.isObject_of_definition hModel
  rw [introspectText_eq_ok_iff]
  constructor
  · rintro ⟨⟨definitions⟩, hParse, hBuild⟩
    obtain ⟨hSome, hDefines⟩ := (Graphql.Document.parse_objects_iff (hObjects hBuild)).mp hParse
    exact ⟨definitions, hSome, hDefines, hBuild⟩
  · rintro ⟨definitions, hSome, hDefines, hBuild⟩
    exact ⟨⟨definitions⟩,
      (Graphql.Document.parse_objects_iff (hObjects hBuild)).mpr ⟨hSome, hDefines⟩, hBuild⟩

/-- Two texts with a line feed between them have the models of both. -/
theorem introspectText_append {first second : String} {firsts seconds : List Model}
    (hFirst : introspectText options label first = .ok firsts)
    (hSecond : introspectText options label second = .ok seconds) :
    introspectText options label (first ++ "\n" ++ second) = .ok (firsts ++ seconds) := by
  rw [introspectText_iff_defines] at hFirst hSecond ⊢
  obtain ⟨definitions, hSome, hDefines, hBuild⟩ := hFirst
  obtain ⟨others, -, hOthers, hBuildOthers⟩ := hSecond
  refine ⟨definitions ++ others, by simp [hSome], ?_, ?_⟩
  · have hTokens : Tokens.ofText (first ++ "\n" ++ second) =
        (Tokens.ofText first).append (Tokens.ofText second) := by
      rw [Tokens.ofText, String.toList_append, String.toList_append, List.append_assoc]
      exact Tokens.ofChars_append hDefines.complete second.toList
    rw [hTokens]
    exact hDefines.append hOthers
  · rw [List.mapM_append, hBuild, hBuildOthers]
    rfl

/-- The label of a text is for its failures only. -/
theorem introspectText_relabel {content : String} {models : List Model}
    (h : introspectText options label content = .ok models) (other : String) :
    introspectText options other content = .ok models := by
  rw [introspectText_eq_ok_iff] at h ⊢
  exact h

end

theorem introspectFile_eq_ok_iff {codecs : Codecs} {tree : FileTree} {options : RunOptions}
    {path : Path} {models : List Model} :
    introspectFile tree options path codecs = .ok models ↔
      ∃ content, tree.readText path (codecs.decoder options.encoding) = .ok content ∧
        introspectText options.building path.text content = .ok models := by
  rw [introspectFile, observedFile]
  cases tree.readText path (codecs.decoder options.encoding) with
  | error e => simp
  | ok content => simp [introspectText]

section

variable {codecs : Codecs} {tree : FileTree} {options : RunOptions} {groups : List FileGroup}

/-- The texts of some files, each with the models of its file. -/
def HaveTexts (codecs : Codecs) (tree : FileTree) (options : RunOptions) :
    List FileGroup → List String → Prop :=
  List.Forall₂ fun group text =>
    tree.readText group.path (codecs.decoder options.encoding) = .ok text ∧
      introspectText options.building group.path.text text = .ok group.models

/-- Files that succeed have texts. -/
theorem Succeed.exists_texts (h : Succeed codecs tree options groups) :
    ∃ texts, HaveTexts codecs tree options groups texts := by
  induction groups with
  | nil => exact ⟨[], .nil⟩
  | cons group groups ih =>
      obtain ⟨hFirst, hRest⟩ := List.forall_mem_cons.mp h
      obtain ⟨text, hText⟩ := introspectFile_eq_ok_iff.mp hFirst
      obtain ⟨texts, hTexts⟩ := ih hRest
      exact ⟨text :: texts, .cons hText hTexts⟩

/-- Any number of texts, but at least one, as one text. -/
theorem HaveTexts.joined {texts : List String} (h : HaveTexts codecs tree options groups texts)
    (hSome : groups ≠ []) (label : String) :
    introspectText options.building label ("\n".intercalate texts) =
      .ok (groups.flatMap FileGroup.models) := by
  -- the last text stands without a line feed, so the rest is looked at in each step
  induction h with
  | nil => exact absurd rfl hSome
  | @cons group text groups texts hFirst hRest ih =>
      have hModels := introspectText_relabel hFirst.2 label
      cases hRest with
      | nil => simpa using hModels
      | cons hSecond hRest =>
          rw [String.intercalate_cons_cons, List.flatMap_cons]
          exact introspectText_append hModels (ih (List.cons_ne_nil _ _))

end

/-- Two texts with a line feed between them have the models of both, one behind the
other. So have the texts of some files, one of them at least, with line feeds between
them: as one text or file they have the models of a run over the files. -/
theorem introspect_joined :
    (∀ (options : Build.Options) (label first second : String) (firsts seconds : List Model),
      introspectText options label first = .ok firsts →
      introspectText options label second = .ok seconds →
      introspectText options label (first ++ "\n" ++ second) = .ok (firsts ++ seconds)) ∧
    ∀ (codecs : Codecs) (tree : FileTree) (options : RunOptions) (groups : List FileGroup),
      groups ≠ [] → Succeed codecs tree options groups →
      (findSchemaFiles tree options.patterns = .ok (groups.map FileGroup.path) →
        (introspect tree options codecs).outcome = .ok (groups.flatMap FileGroup.models)) ∧
      ∃ texts, List.Forall₂ (fun group text =>
          tree.readText group.path (codecs.decoder options.encoding) = .ok text) groups texts ∧
        (∀ label, introspectText options.building label ("\n".intercalate texts) =
          .ok (groups.flatMap FileGroup.models)) ∧
        ∀ (joined : FileTree) (encoding : String) (path : Path),
          joined.readText path (codecs.decoder encoding) = .ok ("\n".intercalate texts) →
          introspectFile joined { options with encoding } path codecs =
            .ok (groups.flatMap FileGroup.models) := by
  refine ⟨fun options label first second firsts seconds => introspectText_append, ?_⟩
  intro codecs tree options groups hSome hGroups
  obtain ⟨texts, hTexts⟩ := hGroups.exists_texts
  refine ⟨fun hPaths => ?_, texts, hTexts.imp fun _ _ h => h.1, hTexts.joined hSome, ?_⟩
  · have hRun := observedRun_ok (some Observer.recorder) hGroups hPaths []
    rw [introspect, hRun]
  · intro joined encoding path hRead
    exact introspectFile_eq_ok_iff.mpr ⟨_, hRead, hTexts.joined hSome path.text⟩

/-- Three files in one directory. -/
def threeFiles (first second third : List UInt8) : FileTree :=
  ⟨[(["a"], .file first), (["b"], .file second), (["c"], .file third)], []⟩

theorem threeFiles_read (first second third : List UInt8) :
    (threeFiles first second third).read (.ofText "a") = .ok first ∧
    (threeFiles first second third).read (.ofText "b") = .ok second ∧
    (threeFiles first second third).read (.ofText "c") = .ok third := by
  refine ⟨?_, ?_, ?_⟩ <;> cbv

/-- A type without a body in front of a comment, a type with a description, and both. -/
def splitSchema : FileTree :=
  threeFiles (utf8Bytes "type A #") (utf8Bytes "\"\" type B") (utf8Bytes "type A #\n\"\" type B")

theorem splitSchema_readText :
    splitSchema.readText (.ofText "a") (Codecs.bare.decoder "utf-8") = .ok "type A #" ∧
    splitSchema.readText (.ofText "b") (Codecs.bare.decoder "utf-8") = .ok "\"\" type B" ∧
    splitSchema.readText (.ofText "c") (Codecs.bare.decoder "utf-8") =
      .ok "type A #\n\"\" type B" := by
  obtain ⟨hFirst, hSecond, hThird⟩ := threeFiles_read (utf8Bytes "type A #")
    (utf8Bytes "\"\" type B") (utf8Bytes "type A #\n\"\" type B")
  rw [Codecs.bare, decoder_utf8]
  exact ⟨FileTree.readText_of_read (by decide) hFirst,
    FileTree.readText_of_read (by decide) hSecond, FileTree.readText_of_read (by decide) hThird⟩

/-- Two files and one that holds the texts of both have the same models. -/
theorem splitSchema_joined :
    (introspect splitSchema ⟨["[ab]"], "utf-8", some "main", .plain⟩ .bare).outcome =
        .ok [⟨"A", "main", [], []⟩, ⟨"B", "main", [], []⟩] ∧
      introspectFile splitSchema ⟨["[ab]"], "utf-8", some "main", .plain⟩ (.ofText "c") .bare =
        .ok [⟨"A", "main", [], []⟩, ⟨"B", "main", [], []⟩] := by
  obtain ⟨hFirst, hSecond, hThird⟩ := splitSchema_readText
  have hFiles : Succeed .bare splitSchema ⟨["[ab]"], "utf-8", some "main", .plain⟩
      [⟨.ofText "a", [⟨"A", "main", [], []⟩]⟩, ⟨.ofText "b", [⟨"B", "main", [], []⟩]⟩] := by
    intro group hGroup
    rcases List.mem_cons.mp hGroup with rfl | hGroup
    · exact introspectFile_eq_ok_iff.mpr ⟨_, hFirst, by cbv⟩
    · rw [List.mem_singleton.mp hGroup]
      exact introspectFile_eq_ok_iff.mpr ⟨_, hSecond, by cbv⟩
  obtain ⟨hRun, texts, hTexts, -, hFile⟩ :=
    introspect_joined.2 _ _ _ _ (List.cons_ne_nil _ _) hFiles
  refine ⟨hRun (by cbv), hFile splitSchema "utf-8" (.ofText "c") ?_⟩
  cases hTexts with
  | cons hText hTexts =>
      cases hTexts with
      | cons hText' hTexts =>
          cases hTexts
          rw [hFirst] at hText
          rw [hSecond] at hText'
          cases hText
          cases hText'
          exact hThird

/-- The condition on the number of files: a run over no file gives no models, but a
file with no text is no schema. -/
theorem noFile_notJoined :
    (introspect (threeFiles [] [] []) ⟨[], "utf-8", some "main", .plain⟩ .bare).outcome = .ok [] ∧
      (threeFiles [] [] []).readText (.ofText "a") (Codecs.bare.decoder "utf-8") =
        .ok ("\n".intercalate []) ∧
      ∀ models, introspectFile (threeFiles [] [] []) ⟨[], "utf-8", some "main", .plain⟩
        (.ofText "a") .bare ≠ .ok models := by
  have hRead : (threeFiles [] [] []).readText (.ofText "a") (Codecs.bare.decoder "utf-8") =
      .ok ("\n".intercalate []) := by
    rw [Codecs.bare, decoder_utf8]
    exact FileTree.readText_of_read (by decide) (threeFiles_read [] [] []).1
  have hParse : Graphql.Document.parse ("\n".intercalate []) = .error (.unexpected none) := by cbv
  refine ⟨by cbv, hRead, fun models hFile => ?_⟩
  obtain ⟨content, hContent, hText⟩ := introspectFile_eq_ok_iff.mp hFile
  cases hRead.symm.trans hContent
  rw [introspectText_parsing _ hParse] at hText
  cases hText

end SchemaModels
