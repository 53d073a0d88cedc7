import Mathlib
import SchemaModels.Proofs.Files.Written
import SchemaModels.Proofs.Introspection.Listing
import SchemaModels.Proofs.Introspection.Reading

/-!
Which file a reported failure names. A failure of reading has the path of its file. The
others have its text as a label, and the path is made of the label again, unless the
label looks like that of a text from elsewhere.
-/
namespace SchemaModels

/-- A path whose text begins like the label of a text from elsewhere. -/
def Path.LooksLikeLabel (path : Path) : Prop := path.text.startsWith "<" = true

instance (path : Path) : Decidable path.LooksLikeLabel := instDecidableEqBool _ _

/-- A failure of reading, which has its path and needs no label. -/
def IntrospectionError.IsReading : IntrospectionError → Prop
  | .reading _ _ => True
  | .parsing _ _ | .building _ _ => False

section Label

variable {path : Path}

/-- Only a relative path can look like a label, and its first part says whether it
does. -/
theorem looksLikeLabel_iff : path.LooksLikeLabel ↔ path.start = .relative ∧
    ∃ name rest, path.parts = name :: rest ∧ name.startsWith "<" = true := by
  have hAngle (text : String) : text.startsWith "<" = true ↔ text.toList.head? = some '<' :=
    Path.startsWith_iff_head? rfl
  obtain ⟨start, parts⟩ := path
  unfold Path.LooksLikeLabel
  simp only [hAngle]
  cases start with
  | relative =>
      cases parts with
      | nil => simp [Path.text]
      | cons name rest =>
          rw [Path.text_of_parts_ne_nil (List.cons_ne_nil _ _)]
          cases rest with
          | nil => simp [Path.startText]
          | cons next rest =>
              cases hName : name.toList with
              | nil => simp [Path.startText, String.intercalate_cons_cons, hName]
              | cons c chars => simp [Path.startText, String.intercalate_cons_cons, hName]
  | top => simp [Path.text, Path.startText]
  | doubleTop => simp [Path.text, Path.startText]

theorem pathOfLabel?_text (h : path.IsNormal) :
    IntrospectionError.pathOfLabel? path.text = some path ∧ ¬path.LooksLikeLabel ∨
      IntrospectionError.pathOfLabel? path.text = none ∧ path.LooksLikeLabel := by
  unfold IntrospectionError.pathOfLabel? Path.LooksLikeLabel
  rw [Path.ofText_text h]
  split_ifs with hLabel
  · exact .inr ⟨rfl, hLabel⟩
  · exact .inl ⟨rfl, hLabel⟩

end Label

variable {tree : FileTree} {options : RunOptions} {codecs : Codecs} {path : Path}

/-- A failure of a text has the label of the text. -/
theorem introspectText_path? {building : Build.Options} {label content : String}
    {error : IntrospectionError}
    (h : introspectText building label content = .error (.reported error)) :
    ¬error.IsReading ∧ error.path? = IntrospectionError.pathOfLabel? label := by
  rcases introspectText_cases building label content with
    ⟨models, hOk⟩ | ⟨cause, -, hError⟩ | ⟨document, cause, -, -, -, hError⟩ | ⟨count, -, -, hError⟩
  all_goals rw [h] at *
  · cases hOk
  · cases hError
    exact ⟨id, rfl⟩
  · cases hError
    exact ⟨id, rfl⟩
  · cases hError

/-- A failure of a file names it, or else it is one of its text and the path looks like a
label. -/
theorem introspectFile_path? (hNormal : path.IsNormal) {error : IntrospectionError}
    (h : introspectFile tree options path codecs = .error (.reported error)) :
    error.path? = some path ∧ (error.IsReading ∨ ¬path.LooksLikeLabel) ∨
      error.path? = none ∧ ¬error.IsReading ∧ path.LooksLikeLabel := by
  have hPath : path.hasNull = false := by
    cases hNull : path.hasNull with
    | false => rfl
    | true =>
        rw [introspectFile_of_null hNull] at h
        cases h
  rcases handsOver_or_reportsReading_or_escapes codecs options hPath with
    ⟨bytes, chars, -, -, hText⟩ | ⟨cause, -, hReported⟩ | ⟨e, hEscapes⟩
  · obtain ⟨hOther, hPath⟩ := introspectText_path? (hText.symm.trans h)
    rw [hPath]
    exact (pathOfLabel?_text hNormal).imp (And.imp_right Or.inr) (And.imp_right (.intro hOther))
  · rw [hReported] at h
    cases h
    exact .inl ⟨rfl, .inl trivial⟩
  · rw [introspectFile_of_escapes hEscapes] at h
    cases h

/-- The last event of some files that fail is that of the file that fails. -/
theorem observedFiles_failure {paths : List Path} {output : List Model} {held events : List Event}
    {failure : IntrospectionFailure}
    (h : observedFiles (some Observer.recorder) tree options paths output held codecs =
      (.error failure, events)) :
    ∃ before failing after, paths = before ++ failing :: after ∧
      (∀ earlier ∈ before, ∃ models, introspectFile tree options earlier codecs = .ok models) ∧
      introspectFile tree options failing codecs = .error failure ∧
      events.getLast? = some (.file failing) := by
  induction paths generalizing output held with
  | nil => cases h
  | cons path rest ih =>
      rw [observedFiles, observedFile_eq] at h
      cases hFile : introspectFile tree options path codecs with
      | error e =>
          rw [hFile] at h
          cases h
          refine ⟨[], path, rest, rfl, by simp, hFile, ?_⟩
          exact List.getLast?_concat
      | ok models =>
          rw [hFile] at h
          obtain ⟨before, failing, after, rfl, hBefore, hFailing, hLast⟩ := ih h
          exact ⟨path :: before, failing, after, rfl,
            List.forall_mem_cons.mpr ⟨⟨models, hFile⟩, hBefore⟩, hFailing, hLast⟩

/-- A first file that fails is the only one that is reported. -/
theorem introspect_of_first {rest : List Path} {failure : IntrospectionFailure}
    (hPaths : findSchemaFiles tree options.patterns = .ok (path :: rest))
    (hFile : introspectFile tree options path codecs = .error failure) :
    introspect tree options codecs = ⟨[.file path], .error failure⟩ := by
  rw [introspect, observedRun, hPaths]
  dsimp only
  rw [observedFiles, observedFile_eq, hFile]
  rfl

/-- If a run ends with a reported failure, then the file that is reported last is the one
that failed, and the failure names it, unless the file could be read and its path looks
like a label: then the failure names no file. No absolute path looks like a label, and a
relative one does exactly if its first part begins with an angle bracket. -/
theorem introspect_namesFile_iff {error : IntrospectionError}
    (h : (introspect tree options codecs).outcome = .error (.reported error)) :
    ∃ path ∈ schemaFiles tree options.patterns,
      (introspect tree options codecs).events.getLast? = some (.file path) ∧
      introspectFile tree options path codecs = .error (.reported error) ∧
      (error.path? = some path ↔ error.IsReading ∨ ¬path.LooksLikeLabel) ∧
      (error.path? = none ↔ ¬error.IsReading ∧ path.LooksLikeLabel) ∧
      (path.LooksLikeLabel ↔ path.start = .relative ∧
        ∃ name rest, path.parts = name :: rest ∧ name.startsWith "<" = true) := by
  have hRun : observedFiles (some Observer.recorder) tree options
      (schemaFiles tree options.patterns) [] [] codecs =
        (.error (.reported error), (introspect tree options codecs).events) := by
    cases hFound : findSchemaFiles tree options.patterns with
    | error e =>
        rw [introspect, observedRun_of_unsearchable _ hFound] at h
        cases h
    | ok paths =>
        rw [schemaFiles_of_find hFound, ← h, introspect, observedRun, hFound]
  obtain ⟨before, path, after, hPaths, -, hFailing, hLast⟩ := observedFiles_failure hRun
  have hListed : path ∈ schemaFiles tree options.patterns := by
    rw [hPaths]
    exact List.mem_append_right _ (List.mem_cons_self ..)
  refine ⟨path, hListed, hLast, hFailing, ?_, ?_, looksLikeLabel_iff⟩
  all_goals
    rcases introspectFile_path? (isNormal_of_mem_schemaFiles hListed) hFailing with
      ⟨hPath, hNamed⟩ | ⟨hPath, hUnnamed⟩
  · exact iff_of_true hPath hNamed
  · exact iff_of_false (by simp [hPath]) (fun hNamed => hNamed.elim hUnnamed.1 (· hUnnamed.2))
  · exact iff_of_false (by simp [hPath]) (fun hNone => hNamed.elim hNone.1 (· hNone.2))
  · exact iff_of_true hPath hUnnamed

/-- A file whose name looks like a label, in the working directory and below another
one. -/
def angleFiles : FileTree :=
  ⟨[(["<a>.graphql"], .file (utf8Bytes "type")), (["sub"], .directory),
    (["sub", "<a>.graphql"], .file (utf8Bytes "type"))], []⟩

def angleOptions (pattern : String) : RunOptions := ⟨[pattern], "utf-8", none, .plain⟩

/-- Each pattern finds one of them, and only the one below a directory does not look like
a label. -/
theorem schemaFiles_angleFiles :
    schemaFiles angleFiles ["sub/*.graphql"] = [.ofText "sub/<a>.graphql"] ∧
      schemaFiles angleFiles ["*.graphql"] = [.ofText "<a>.graphql"] ∧
      (∀ path ∈ [Path.ofText "sub/<a>.graphql", Path.ofText "<a>.graphql"],
        angleFiles.read path = .ok (utf8Bytes "type")) ∧
      ¬(Path.ofText "sub/<a>.graphql").LooksLikeLabel ∧
      (Path.ofText "<a>.graphql").LooksLikeLabel := by
  with_unfolding_all decide

theorem introspect_angleFiles {path : Path} {pattern : String}
    (hSearch : Glob.searchError? pattern = none)
    (hFiles : schemaFiles angleFiles [pattern] = [path])
    (hRead : angleFiles.read path = .ok (utf8Bytes "type")) :
    introspect angleFiles (angleOptions pattern) .bare =
      ⟨[.file path], .error (.reported (.parsing path.text (.expected .name none)))⟩ := by
  have hFound : findSchemaFiles angleFiles (angleOptions pattern).patterns = .ok [path] := by
    simp only [findSchemaFiles, angleOptions, List.findSome?_cons, hSearch, List.findSome?_nil,
      hFiles]
  refine introspect_of_first hFound ?_
  have hParse : Graphql.Document.parse "type" = .error (.expected .name none) := by cbv
  have hText : angleFiles.readText path (Codecs.bare.decoder (angleOptions pattern).encoding) =
      .ok "type" := by
    rw [Codecs.bare, angleOptions, decoder_utf8]
    exact FileTree.readText_of_read (by decide) hRead
  rw [introspectFile, observedFile, hText]
  exact introspectText_parsing _ hParse

/-- Below a directory it is named. -/
theorem angleBelow_namesFile :
    ∃ error, (introspect angleFiles (angleOptions "sub/*.graphql") .bare).outcome =
        .error (.reported error) ∧
      error.path? = some (.ofText "sub/<a>.graphql") := by
  obtain ⟨hFiles, -, hRead, hOther, -⟩ := schemaFiles_angleFiles
  have hRun := introspect_angleFiles (by decide) hFiles (hRead _ (by simp))
  have hOutcome := congrArg Run.outcome hRun
  obtain ⟨path, -, hLast, -, hNamed, -, -⟩ := introspect_namesFile_iff hOutcome
  rw [hRun, List.getLast?_singleton, Option.some.injEq, Event.file.injEq] at hLast
  subst hLast
  exact ⟨_, hOutcome, hNamed.mpr (.inr hOther)⟩

/-- In the working directory it is not, although it was reported. -/
theorem angleFile_unnamed :
    (introspect angleFiles (angleOptions "*.graphql") .bare).events =
        [.file (.ofText "<a>.graphql")] ∧
      ∃ error, (introspect angleFiles (angleOptions "*.graphql") .bare).outcome =
          .error (.reported error) ∧
        error.path? = none := by
  obtain ⟨-, hFiles, hRead, -, hLabel⟩ := schemaFiles_angleFiles
  have hRun := introspect_angleFiles (by decide) hFiles (hRead _ (by simp))
  have hUnnamed := (pathOfLabel?_text (Path.isNormal_ofText "<a>.graphql")).resolve_left
    fun hNamed => hNamed.2 hLabel
  exact ⟨congrArg Run.events hRun, _, congrArg Run.outcome hRun, hUnnamed.1⟩

end SchemaModels
