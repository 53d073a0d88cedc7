import SchemaModels.Introspection.Run
import SchemaModels.Proofs.Build.FaultKinds
import SchemaModels.Proofs.Graphql.Grammar

/-!
Which failures of a text are reported with their place, and which are not. The
schema language has no limit on the digits of a number, but integers do, and that
one failure passes by unreported.
-/
namespace SchemaModels

open Graphql

section

variable {options : Build.Options} (label : String) {content : String}

theorem introspectText_ok {document : Document} {models : List Model}
    (hParse : Document.parse content = .ok document)
    (hBuild : Build.document options document = .ok models) :
    introspectText options label content = .ok models := by
  rw [introspectText, observedText, hParse]
  simp only [Build.observedDocument, hBuild]

theorem introspectText_parsing {e : SyntaxError} (hParse : Document.parse content = .error e) :
    introspectText options label content = .error (.reported (.parsing label e)) := by
  rw [introspectText, observedText, hParse]

theorem introspectText_building {document : Document} {e : BuildError}
    (hParse : Document.parse content = .ok document)
    (hBuild : Build.document options document = .error e) :
    introspectText options label content = .error (.ofBuilding label e) := by
  rw [introspectText, observedText, hParse]
  simp only [Build.observedDocument, hBuild]

/-- What is wrong with the schema is reported. -/
theorem ofBuilding_schemaFault {e : BuildError} (h : Build.IsSchemaFault e) :
    IntrospectionFailure.ofBuilding label e = .reported (.building label e) := by
  cases h <;> rfl

/-- An integer in the text with too many digits comes before all other faults. -/
def HasLongInteger (options : Build.Options) (content : String) (count : Nat) : Prop :=
  ∃ document, Document.parse content = .ok document ∧
    (Build.documentFaults options document).head? = some (.numeral (.tooManyDigits count))

/-- The outcome of a text, whatever it is. -/
theorem introspectText_cases (options : Build.Options) (label content : String) :
    (∃ models, introspectText options label content = .ok models) ∨
      (∃ e, Document.parse content = .error e ∧
        introspectText options label content = .error (.reported (.parsing label e))) ∨
      (∃ document e, Document.parse content = .ok document ∧
        Build.document options document = .error e ∧ Build.IsSchemaFault e ∧
        introspectText options label content = .error (.reported (.building label e))) ∨
      ∃ count, maxIntegerDigits < count ∧ HasLongInteger options content count ∧
        introspectText options label content = .error (.numeral (.tooManyDigits count)) := by
  cases hParse : Document.parse content with
  | error e => exact Or.inr (Or.inl ⟨e, rfl, introspectText_parsing label hParse⟩)
  | ok document =>
      cases hBuild : Build.document options document with
      | ok models => exact Or.inl ⟨models, introspectText_ok label hParse hBuild⟩
      | error e =>
          have hText := introspectText_building label hParse hBuild
          have hHead := (Build.document_failsFirst options document e).mp hBuild
          have hFault := Build.faults_of_wellFormed options (Document.parse_wellFormed hParse) e
            (List.mem_of_mem_head? hHead)
          rcases hFault with hSchema | ⟨count, hLong, rfl⟩
          · rw [ofBuilding_schemaFault label hSchema] at hText
            exact Or.inr (Or.inr (Or.inl ⟨document, e, rfl, hBuild, hSchema, hText⟩))
          · exact Or.inr (Or.inr (Or.inr ⟨count, hLong, ⟨document, hParse, hHead⟩, hText⟩))

/-- A long integer that comes first fails the text, and is not reported. -/
theorem introspectText_longInteger {count : Nat} (h : HasLongInteger options content count) :
    introspectText options label content = .error (.numeral (.tooManyDigits count)) := by
  obtain ⟨document, hParse, hHead⟩ := h
  exact introspectText_building label hParse
    ((Build.document_failsFirst options document _).mpr hHead)

end

/-- A text gives models or a reported failure, with its cause, exactly if no
integer that has too many digits comes before all other faults. -/
theorem introspectText_reported_iff (options : Build.Options) (label content : String) :
    ((∃ models, introspectText options label content = .ok models) ∨
        (∃ e, Document.parse content = .error e ∧
          introspectText options label content = .error (.reported (.parsing label e))) ∨
        (∃ document e, Document.parse content = .ok document ∧
          Build.document options document = .error e ∧
          introspectText options label content = .error (.reported (.building label e))) ↔
      ∀ count, maxIntegerDigits < count → ¬HasLongInteger options content count) ∧
    ∀ count, maxIntegerDigits < count → HasLongInteger options content count →
      introspectText options label content = .error (.numeral (.tooManyDigits count)) := by
  refine ⟨⟨fun hReported count _ hLong => ?_, fun hNone => ?_⟩,
    fun count _ hLong => introspectText_longInteger label hLong⟩
  · have hFailure := introspectText_longInteger label hLong
    rcases hReported with ⟨models, hOk⟩ | ⟨e, _, hError⟩ | ⟨document, e, _, _, hError⟩
    · rw [hFailure] at hOk
      cases hOk
    · rw [hFailure] at hError
      cases hError
    · rw [hFailure] at hError
      cases hError
  · rcases introspectText_cases options label content with
      hOk | hParsing | ⟨document, e, hParse, hBuild, _, hError⟩ | ⟨count, hLong, hHas, _⟩
    · exact Or.inl hOk
    · exact Or.inr (Or.inl hParsing)
    · exact Or.inr (Or.inr ⟨document, e, hParse, hBuild, hError⟩)
    · exact (hNone count hLong hHas).elim

/-- A type with an integer of so many digits among the arguments of a directive. -/
def longArgument (count : Nat) : String :=
  "type T @a(n: " ++ String.ofList (List.replicate count '1') ++ ")"

/-- The integer that has only ones. -/
def onesLexeme (count : Nat) (h : 0 < count) : Lexeme where
  minus := false
  whole := List.replicate count '1'
  fraction := []
  exponent := []
  isWhole := by
    refine ⟨by simp; omega, fun c hc => ?_, fun hZero => ?_⟩
    · rw [List.eq_of_mem_replicate hc]
      decide
    · exact absurd (List.eq_of_mem_replicate (List.mem_of_mem_head? hZero)) (by decide)
  isFraction := .absent
  isExponent := .absent

theorem parse_longArgument {count : Nat} (h : 0 < count) :
    Document.parse (longArgument count) = .ok ⟨[.declaration none (.object ⟨"T", [],
      [⟨"a", [("n", .integer (onesLexeme count h).text)]⟩], []⟩)]⟩ := by
  have hChars : (longArgument count).toList =
      "type T @a(n: ".toList ++ ((onesLexeme count h).chars ++ [')']) := by
    simp [longArgument, onesLexeme, Lexeme.chars, Lexeme.unsigned]
  have hInteger : Lexer.readNumber ((onesLexeme count h).chars ++ [')']) =
      .ok (.integer (onesLexeme count h).text, [')']) :=
    Lexer.readNumber_integer (onesLexeme count h) ⟨rfl, rfl⟩ (by simp; decide)
  have hTokens : Tokens.ofText (longArgument count) =
      .next (.name "type") (.next (.name "T") (.next (.punctuator .at) (.next (.name "a")
        (.next (.punctuator .parenLeft) (.next (.name "n") (.next (.punctuator .colon)
          (.next (.integer (onesLexeme count h).text)
            (.next (.punctuator .parenRight) .finished)))))))) := by
    rw [Tokens.ofText, hChars]
    obtain ⟨n, rfl⟩ : ∃ n, count = n + 1 := ⟨count - 1, by omega⟩
    refine Tokens.ofChars_next rfl rfl ?_
    refine Tokens.ofChars_next rfl rfl ?_
    refine Tokens.ofChars_next rfl rfl ?_
    refine Tokens.ofChars_next rfl rfl ?_
    refine Tokens.ofChars_next rfl rfl ?_
    refine Tokens.ofChars_next rfl rfl ?_
    refine Tokens.ofChars_next rfl rfl ?_
    refine Tokens.ofChars_next rfl hInteger ?_
    refine Tokens.ofChars_next rfl rfl ?_
    rw [Tokens.ofChars]
    rfl
  rw [Document.parse, hTokens]
  rfl

/-- The text has no other fault than its integer. -/
theorem hasLongInteger_longArgument {count : Nat} (h : maxIntegerDigits < count) :
    HasLongInteger ⟨some "main", .plain⟩ (longArgument count) count := by
  have hPositive : 0 < count := Nat.zero_lt_of_lt h
  have hRead : Numeral.readInteger 10 (onesLexeme count hPositive).text =
      .error (.tooManyDigits count) := by
    have hLength : (onesLexeme count hPositive).whole.length = count := List.length_replicate
    rw [(onesLexeme count hPositive).readInteger_text ⟨rfl, rfl⟩, hLength, if_pos h]
  have hFaults (lexeme : String) : Build.documentFaults ⟨some "main", .plain⟩
      ⟨[.declaration none (.object ⟨"T", [], [⟨"a", [("n", .integer lexeme)]⟩], []⟩)]⟩ =
        Build.numeralFaults (Numeral.readInteger 10 lexeme) := by
    simp [Build.documentFaults, Build.definitionFaults, Build.modelFaults, Build.sourceFaults,
      Build.statedSource?, Build.modelDirectiveFaults, Build.directiveFaults, Build.nameFaults,
      Build.entryFaults, Build.literalFaults, Build.sourceDirective, Naming.read?]
  refine ⟨_, parse_longArgument hPositive, ?_⟩
  rw [hFaults, hRead]
  rfl

/-- Not every failure of a text is reported: one digit too many is enough. -/
theorem longArgument_unreported :
    introspectText ⟨some "main", .plain⟩ "<string>" (longArgument 4301) =
        .error (.numeral (.tooManyDigits 4301)) ∧
      ¬((∃ models, introspectText ⟨some "main", .plain⟩ "<string>" (longArgument 4301) =
          .ok models) ∨
        ∃ e, introspectText ⟨some "main", .plain⟩ "<string>" (longArgument 4301) =
          .error (.reported e)) := by
  have hLong : maxIntegerDigits < 4301 := by decide
  have hFailure := introspectText_longInteger "<string>" (hasLongInteger_longArgument hLong)
  refine ⟨hFailure, ?_⟩
  rw [hFailure]
  rintro (⟨models, h⟩ | ⟨e, h⟩) <;> cases h

end SchemaModels
