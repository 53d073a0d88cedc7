import SchemaModels.Proofs.Files.Encoding
import SchemaModels.Proofs.Files.Places
import SchemaModels.Proofs.Introspection.Boundary
import SchemaModels.Proofs.Introspection.Trace

/-!
Where reading a file ends and introspecting its text begins, whatever the codecs are.
A file that cannot be read is reported with its path, unless the path is none. So is one that
cannot be decoded, if the error is one that is expected; every other error of a codec ends the
run as it is.
-/
namespace SchemaModels

variable {tree : FileTree} {options : RunOptions} {path : Path} {codecs : Codecs}

/-- The text of a file is decoded and handed on. -/
def HandsOver (codecs : Codecs) (tree : FileTree) (options : RunOptions) (path : Path) : Prop :=
  ∃ bytes chars, tree.read path = .ok bytes ∧ codecs.decoder options.encoding bytes = .ok chars ∧
    introspectFile tree options path codecs =
      introspectText options.building path.text (String.ofList (Text.unifyNewlines chars))

/-- That there is no text of a file is reported with its path and the cause. -/
def ReportsReading (codecs : Codecs) (tree : FileTree) (options : RunOptions) (path : Path) :
    Prop :=
  ∃ e, tree.readText path (codecs.decoder options.encoding) = .error e ∧
    introspectFile tree options path codecs = .error (.reported (.reading path e))

/-- An error of a codec that reading does not expect. -/
def EscapesReading (codecs : Codecs) (tree : FileTree) (options : RunOptions) (path : Path)
    (e : TextError) : Prop :=
  ∃ bytes, tree.read path = .ok bytes ∧ codecs.decoder options.encoding bytes = .error e ∧
    ¬e.IsExpected

namespace IntrospectionFailure

theorem ofReading_of_expected {e : TextError} (h : e.IsExpected) (path : Path) :
    ofReading path (.text e) = .reported (.reading path (.text e)) := by
  cases e with
  | undivided message => exact h.elim
  | nullInName => exact h.elim
  | _ => rfl

theorem ofReading_of_unexpected {e : TextError} (h : ¬e.IsExpected) (path : Path) :
    ofReading path (.text e) = .text e := by
  cases e with
  | undivided message => rfl
  | nullInName => rfl
  | _ => exact absurd trivial h

end IntrospectionFailure

section File

theorem introspectFile_of_readText_error {e : ReadingError}
    (h : tree.readText path (codecs.decoder options.encoding) = .error e) :
    introspectFile tree options path codecs = .error (.ofReading path e) := by
  rw [introspectFile, observedFile, h]

theorem readText_of_unread {e : FileError} (h : tree.read path = .error e) (decode : Decoder) :
    tree.readText path decode = .error (.file e) := by
  rw [FileTree.readText, h]

variable {bytes : List UInt8} (hRead : tree.read path = .ok bytes)
include hRead

theorem readText_of_undecoded {decode : Decoder} {e : TextError}
    (h : decode bytes = .error e) : tree.readText path decode = .error (.text e) := by
  simp only [FileTree.readText, hRead, h]

theorem handsOver_of_decoded {chars : List Char}
    (h : codecs.decoder options.encoding bytes = .ok chars) :
    HandsOver codecs tree options path := by
  refine ⟨bytes, chars, hRead, h, ?_⟩
  rw [introspectFile, observedFile, FileTree.readText, hRead]
  dsimp only
  rw [h]
  rfl

end File

/-- A text fails neither for how it was encoded nor for where it was. -/
theorem introspectText_ne {building : Build.Options} {label content : String}
    {failure : IntrospectionFailure} (h : (∃ e, failure = .text e) ∨ ∃ e, failure = .file e) :
    introspectText building label content ≠ .error failure := by
  intro hText
  rcases introspectText_cases building label content with
    ⟨models, hOk⟩ | ⟨cause, -, hError⟩ | ⟨document, cause, -, -, -, hError⟩ | ⟨count, -, -, hError⟩
  · rw [hText] at hOk
    cases hOk
  all_goals
    rw [hText] at hError
    rcases h with ⟨e, rfl⟩ | ⟨e, rfl⟩ <;> cases hError

/-- A file at a path without a null is handed on or reported, or else an error escapes. -/
theorem handsOver_or_reportsReading_or_escapes (codecs : Codecs) {tree : FileTree}
    (options : RunOptions) {path : Path} (hPath : path.hasNull = false) :
    HandsOver codecs tree options path ∨ ReportsReading codecs tree options path ∨
      ∃ e, EscapesReading codecs tree options path e := by
  cases hRead : tree.read path with
  | error e =>
      have hText := readText_of_unread hRead (codecs.decoder options.encoding)
      have hFile := introspectFile_of_readText_error hText
      rw [IntrospectionFailure.ofReading, if_pos (FileTree.isReported_of_read hPath hRead)] at hFile
      exact .inr (.inl ⟨.file e, hText, hFile⟩)
  | ok bytes =>
      cases hDecode : codecs.decoder options.encoding bytes with
      | ok chars => exact .inl (handsOver_of_decoded hRead hDecode)
      | error e =>
          by_cases hExpected : e.IsExpected
          · have hText := readText_of_undecoded hRead hDecode
            have hFile := introspectFile_of_readText_error hText
            rw [IntrospectionFailure.ofReading_of_expected hExpected] at hFile
            exact .inr (.inl ⟨.text e, hText, hFile⟩)
          · exact .inr (.inr ⟨e, bytes, hRead, hDecode, hExpected⟩)

theorem introspectFile_of_escapes {e : TextError} (h : EscapesReading codecs tree options path e) :
    introspectFile tree options path codecs = .error (.text e) := by
  obtain ⟨bytes, hRead, hDecode, hUnexpected⟩ := h
  rw [introspectFile_of_readText_error (readText_of_undecoded hRead hDecode),
    IntrospectionFailure.ofReading_of_unexpected hUnexpected]

/-- What escapes is neither handed on nor reported. -/
theorem EscapesReading.not_reported {e : TextError}
    (h : EscapesReading codecs tree options path e) :
    ¬(HandsOver codecs tree options path ∨ ReportsReading codecs tree options path) := by
  have hFile := introspectFile_of_escapes h
  rintro (⟨bytes, chars, -, -, hText⟩ | ⟨cause, -, hReported⟩)
  · exact introspectText_ne (.inl ⟨_, rfl⟩) (hText.symm.trans hFile)
  · rw [hFile] at hReported
    cases hReported

/-- A path with a null is none, and that is not reported. -/
theorem introspectFile_of_null (h : path.hasNull = true) :
    introspectFile tree options path codecs = .error (.file ⟨.nullInPath, path.text⟩) := by
  have hRead : tree.read path = .error ⟨.nullInPath, path.text⟩ := if_pos h
  rw [introspectFile_of_readText_error (readText_of_unread hRead _)]
  rfl

theorem not_reported_of_null (h : path.hasNull = true) :
    ¬(HandsOver codecs tree options path ∨ ReportsReading codecs tree options path) := by
  have hFile : introspectFile tree options path codecs =
      .error (.file ⟨.nullInPath, path.text⟩) := introspectFile_of_null h
  rintro (⟨bytes, chars, -, -, hText⟩ | ⟨cause, -, hReported⟩)
  · exact introspectText_ne (.inr ⟨_, rfl⟩) (hText.symm.trans hFile)
  · rw [hFile] at hReported
    cases hReported

/-- The errors of codecs that a file ends with are those that escape. -/
theorem introspectFile_eq_text_iff {e : TextError} :
    introspectFile tree options path codecs = .error (.text e) ↔
      EscapesReading codecs tree options path e := by
  refine ⟨fun h => ?_, introspectFile_of_escapes⟩
  have hPath : path.hasNull = false := by
    cases hNull : path.hasNull with
    | false => rfl
    | true =>
        rw [introspectFile_of_null hNull] at h
        cases h
  rcases handsOver_or_reportsReading_or_escapes codecs options hPath with
    ⟨bytes, chars, -, -, hText⟩ | ⟨cause, -, hReported⟩ | ⟨escaped, hEscapes⟩
  · rw [hText] at h
    exact absurd h (introspectText_ne (.inl ⟨_, rfl⟩))
  · rw [hReported] at h
    cases h
  · rw [introspectFile_of_escapes hEscapes] at h
    cases h
    exact hEscapes

/-- The result of some files is that of each of them in turn. -/
theorem observedFiles_fst {σ : Type} (observer : Option (Observer σ)) (paths : List Path)
    (output : List Model) (held : σ) :
    (observedFiles observer tree options paths output held codecs).1 =
      (paths.mapM (introspectFile tree options · codecs)).map (output ++ ·.flatten) := by
  induction paths generalizing output held with
  | nil => simp [observedFiles, pure, Except.pure, Except.map]
  | cons path rest ih =>
      rw [observedFiles, observedFile_eq, List.mapM_cons]
      cases introspectFile tree options path codecs with
      | error e => rfl
      | ok models =>
          dsimp only
          rw [ih]
          cases rest.mapM (introspectFile tree options · codecs) with
          | error e => rfl
          | ok groups => simp [Bind.bind, Except.bind, pure, Except.pure, Except.map]

/-- A run ends with an error of a codec exactly if it escapes from the first file that
does not succeed. -/
theorem introspect_eq_text_iff {e : TextError} :
    (introspect tree options codecs).outcome = .error (.text e) ↔ ∃ before failing after,
      findSchemaFiles tree options.patterns = .ok (before ++ failing :: after) ∧
      (∀ path ∈ before, ∃ models, introspectFile tree options path codecs = .ok models) ∧
      EscapesReading codecs tree options failing e := by
  simp only [← introspectFile_eq_text_iff]
  cases hFiles : findSchemaFiles tree options.patterns with
  | error cause => simp [introspect, observedRun_of_unsearchable _ hFiles]
  | ok paths =>
      have hOutcome : (introspect tree options codecs).outcome =
          (paths.mapM (introspectFile tree options · codecs)).map ([] ++ ·.flatten) := by
        rw [introspect, observedRun, hFiles]
        exact observedFiles_fst (some Observer.recorder) _ [] []
      simp only [Except.ok.injEq, ← mapM_eq_error_iff, hOutcome]
      cases paths.mapM (introspectFile tree options · codecs) with
      | error cause => simp [Except.map]
      | ok groups => simp [Except.map]

/-- Of the encodings that are decoded here only UTF-16 fails in a way that is not expected:
where its bytes make sense but begin with no mark. -/
theorem escapesReading_text_iff {foreign : String → Decoder} {encoding : Encoding} {e : TextError}
    (hNull : '\x00' ∉ options.encoding.toList)
    (hName : Codec.ofName? options.encoding = some (.text encoding)) :
    EscapesReading (Encoding.codecs foreign) tree options path e ↔
      ∃ bytes, tree.read path = .ok bytes ∧ encoding = .utf16 ∧ e = Encoding.noByteOrder ∧
        Encoding.Unmarked bytes ∧
        ∃ c chars, Decoding.decodeUtf16 false 0 bytes = .ok (c :: chars) := by
  unfold EscapesReading
  simp only [Encoding.decoder_of_text hNull hName]
  cases e with
  | undivided message => simp [TextError.IsExpected, Encoding.decode_eq_undivided_iff]
  | nullInName => simp [TextError.IsExpected, Encoding.decode_ne_nullInName, Encoding.noByteOrder]
  | _ => simp [TextError.IsExpected, Encoding.noByteOrder]

/-- Whatever the codecs are, a file is handed on as a text or reported with its path and
the cause, unless its path is none or its codec fails in a way that reading does not expect.
Such an error of a codec ends the file and the run as it is. Of the encodings that are decoded
here it is the one of UTF-16 whose bytes make sense but begin with no mark. -/
theorem introspectFile_reading_iff (codecs : Codecs) (tree : FileTree) (options : RunOptions)
    (path : Path) :
    (HandsOver codecs tree options path ∨ ReportsReading codecs tree options path ↔
      path.hasNull = false ∧ ∀ e, ¬EscapesReading codecs tree options path e) ∧
    (∀ e, introspectFile tree options path codecs = .error (.text e) ↔
      EscapesReading codecs tree options path e) ∧
    (∀ e, (introspect tree options codecs).outcome = .error (.text e) ↔ ∃ before failing after,
      findSchemaFiles tree options.patterns = .ok (before ++ failing :: after) ∧
      (∀ earlier ∈ before, ∃ models, introspectFile tree options earlier codecs = .ok models) ∧
      EscapesReading codecs tree options failing e) ∧
    ∀ foreign encoding, codecs = Encoding.codecs foreign → '\x00' ∉ options.encoding.toList →
      Codec.ofName? options.encoding = some (.text encoding) →
      ∀ e, EscapesReading codecs tree options path e ↔
        ∃ bytes, tree.read path = .ok bytes ∧ encoding = .utf16 ∧ e = Encoding.noByteOrder ∧
          Encoding.Unmarked bytes ∧
          ∃ c chars, Decoding.decodeUtf16 false 0 bytes = .ok (c :: chars) := by
  refine ⟨⟨fun hBoundary => ⟨?_, fun e hEscapes => ?_⟩, fun ⟨hPath, hNone⟩ => ?_⟩,
    fun e => introspectFile_eq_text_iff, fun e => introspect_eq_text_iff, ?_⟩
  · cases hNull : path.hasNull with
    | false => rfl
    | true => exact absurd hBoundary (not_reported_of_null hNull)
  · exact hEscapes.not_reported hBoundary
  · rcases handsOver_or_reportsReading_or_escapes codecs options hPath with
      hOver | hReports | ⟨e, hEscapes⟩
    · exact .inl hOver
    · exact .inr hReports
    · exact absurd hEscapes (hNone e)
  · rintro foreign encoding rfl hNull hName e
    exact escapesReading_text_iff hNull hName

/-- A file with a type in UTF-16, without a mark for the byte order. -/
def unmarkedFile : FileTree :=
  ⟨[(["a.graphql"], .file [0x74, 0, 0x79, 0, 0x70, 0, 0x65, 0, 0x20, 0, 0x54, 0])], []⟩

def unmarkedOptions (encoding : String) : RunOptions :=
  ⟨["a.graphql"], encoding, some "main", .plain⟩

/-- The file is neither handed on nor reported: the error comes through to the caller. So
does that of a null in the name of the encoding. -/
theorem unmarkedFile_unreported :
    (introspect unmarkedFile (unmarkedOptions "utf-16") .bare).outcome =
        .error (.text Encoding.noByteOrder) ∧
      ¬(HandsOver .bare unmarkedFile (unmarkedOptions "utf-16") (.ofText "a.graphql") ∨
        ReportsReading .bare unmarkedFile (unmarkedOptions "utf-16") (.ofText "a.graphql")) ∧
      (introspect unmarkedFile (unmarkedOptions "utf\x008") .bare).outcome =
        .error (.text .nullInName) := by
  have hFiles : findSchemaFiles unmarkedFile ["a.graphql"] = .ok [.ofText "a.graphql"] :=
    eq_ok_of_toOption (by with_unfolding_all decide)
  have hRead : unmarkedFile.read (.ofText "a.graphql") =
      .ok [0x74, 0, 0x79, 0, 0x70, 0, 0x65, 0, 0x20, 0, 0x54, 0] := by
    with_unfolding_all decide
  have hUnmarked : EscapesReading .bare unmarkedFile (unmarkedOptions "utf-16")
      (.ofText "a.graphql") Encoding.noByteOrder :=
    ⟨_, hRead, by with_unfolding_all decide, id⟩
  have hNull : EscapesReading .bare unmarkedFile (unmarkedOptions "utf\x008")
      (.ofText "a.graphql") .nullInName :=
    ⟨_, hRead, by with_unfolding_all decide, id⟩
  exact ⟨introspect_eq_text_iff.mpr ⟨[], _, [], hFiles, by simp, hUnmarked⟩,
    hUnmarked.not_reported, introspect_eq_text_iff.mpr ⟨[], _, [], hFiles, by simp, hNull⟩⟩

end SchemaModels
