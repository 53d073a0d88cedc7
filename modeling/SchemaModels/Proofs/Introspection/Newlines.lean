import SchemaModels.Proofs.Graphql.Newlines
import SchemaModels.Proofs.Introspection.Joining

/-!
Line ends in files and texts. A file is read with all its line ends as line feeds and
a text is taken as it is, but both have the same models.
-/
namespace SchemaModels

open Graphql (Tokens)

section

variable {options : Build.Options} {label content : String} {models : List Model}

/-- A text has the same models with its line ends unified. -/
theorem introspectText_unifyNewlines :
    introspectText options label (String.ofList (Text.unifyNewlines content.toList)) =
        .ok models ↔
      introspectText options label content = .ok models := by
  have hTokens (hComplete : (Tokens.ofText content).Complete ∨
      (Tokens.ofText (String.ofList (Text.unifyNewlines content.toList))).Complete) :
      Tokens.ofText (String.ofList (Text.unifyNewlines content.toList)) =
        Tokens.ofText content := by
    rw [Tokens.ofText, Tokens.ofText, String.toList_ofList] at *
    exact Tokens.ofChars_unifyNewlines hComplete
  rw [introspectText_iff_defines, introspectText_iff_defines]
  constructor
  · rintro ⟨definitions, hSome, hDefines, hBuild⟩
    rw [hTokens (Or.inr hDefines.complete)] at hDefines
    exact ⟨definitions, hSome, hDefines, hBuild⟩
  · rintro ⟨definitions, hSome, hDefines, hBuild⟩
    rw [← hTokens (Or.inl hDefines.complete)] at hDefines
    exact ⟨definitions, hSome, hDefines, hBuild⟩

/-- Other line ends make no difference to a text of line feeds. -/
theorem introspectText_withNewlines {newline : List Char}
    (hNewline : newline = ['\r', '\n'] ∨ newline = ['\r']) (hContent : '\r' ∉ content.toList) :
    introspectText options label (String.ofList (Text.withNewlines newline content.toList)) =
        .ok models ↔
      introspectText options label content = .ok models := by
  rw [← introspectText_unifyNewlines, String.toList_ofList,
    Text.unifyNewlines_withNewlines hNewline hContent, String.ofList_toList]

end

/-- A file in UTF-8 has the models of the text in it, whichever further encodings there are. -/
theorem introspectFile_utf8_iff {foreign : String → Decoder} {tree : FileTree}
    {options : RunOptions} {path : Path} {content : String} (hEncoding : options.encoding = "utf-8")
    (hRead : tree.read path = .ok (utf8Bytes content)) (label : String) {models : List Model} :
    introspectFile tree options path (Encoding.codecs foreign) = .ok models ↔
      introspectText options.building label content = .ok models := by
  rw [introspectFile_eq_ok_iff, hEncoding, decoder_utf8, FileTree.readText_utf8 hRead]
  constructor
  · rintro ⟨text, hText, hModels⟩
    cases hText
    exact introspectText_relabel (introspectText_unifyNewlines.mp hModels) label
  · intro hModels
    exact ⟨_, rfl, introspectText_unifyNewlines.mpr (introspectText_relabel hModels path.text)⟩

/-- A file in UTF-8 and the text in it, with any line ends, have the same models or
none. If the text has only line feeds, neither the text nor the file changes its
models when every line feed is replaced by a carriage return, or by both. -/
theorem introspect_newlines (foreign : String → Decoder) (content : String) :
    (∀ (tree : FileTree) (options : RunOptions) (path : Path) (label : String)
        (models : List Model),
      options.encoding = "utf-8" → tree.read path = .ok (utf8Bytes content) →
      (introspectFile tree options path (Encoding.codecs foreign) = .ok models ↔
        introspectText options.building label content = .ok models)) ∧
    ('\r' ∉ content.toList → ∀ newline, newline = ['\r', '\n'] ∨ newline = ['\r'] →
      ∀ rewritten, rewritten = String.ofList (Text.withNewlines newline content.toList) →
        (∀ (options : Build.Options) (label : String) (models : List Model),
          introspectText options label rewritten = .ok models ↔
            introspectText options label content = .ok models) ∧
        ∀ (tree written : FileTree) (options : RunOptions) (path other : Path)
            (models : List Model),
          options.encoding = "utf-8" → tree.read path = .ok (utf8Bytes content) →
          written.read other = .ok (utf8Bytes rewritten) →
          (introspectFile written options other (Encoding.codecs foreign) = .ok models ↔
            introspectFile tree options path (Encoding.codecs foreign) = .ok models)) := by
  refine ⟨fun tree options path label models hEncoding hRead =>
    introspectFile_utf8_iff hEncoding hRead label, ?_⟩
  rintro hContent newline hNewline rewritten rfl
  refine ⟨fun options label models => introspectText_withNewlines hNewline hContent, ?_⟩
  intro tree written options path other models hEncoding hRead hOther
  rw [introspectFile_utf8_iff hEncoding hOther path.text,
    introspectFile_utf8_iff hEncoding hRead path.text,
    introspectText_withNewlines hNewline hContent]

/-- A block text of two lines, in files with other line ends. -/
theorem blockText_newlines :
    introspectFile (threeFiles (utf8Bytes "type A @a(s:\"\"\"x\ny\"\"\")")
        (utf8Bytes "type A @a(s:\"\"\"x\r\ny\"\"\")") [])
      ⟨[], "utf-8", some "main", .plain⟩ (.ofText "b") .bare =
        .ok [⟨"A", "main", [], [⟨"a", none, [("s", .text "x\ny")]⟩]⟩] := by
  have hText : introspectText ⟨some "main", .plain⟩ "a" "type A @a(s:\"\"\"x\ny\"\"\")" =
      .ok [⟨"A", "main", [], [⟨"a", none, [("s", .text "x\ny")]⟩]⟩] := by cbv
  obtain ⟨hFile, hRewritten⟩ := introspect_newlines _ "type A @a(s:\"\"\"x\ny\"\"\")"
  obtain ⟨hFirst, hSecond, -⟩ := threeFiles_read (utf8Bytes "type A @a(s:\"\"\"x\ny\"\"\")")
        (utf8Bytes "type A @a(s:\"\"\"x\r\ny\"\"\")") []
  have hOther := (hRewritten (by decide) _ (Or.inl rfl) "type A @a(s:\"\"\"x\r\ny\"\"\")"
    (by decide)).2
  refine (hOther _ _ _ _ _ _ rfl hFirst hSecond).mpr ?_
  exact (hFile _ _ _ "a" _ rfl hFirst).mpr hText

end SchemaModels
