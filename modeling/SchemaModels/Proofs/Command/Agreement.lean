import SchemaModels.Command.Run
import SchemaModels.Proofs.Introspection.Values
import SchemaModels.Proofs.Project.SetOrder

/-!
The commands that run a project agree. All of them get to the same models or to the
same failure, which is reported in the same way; what they do with the models is all
that differs. Being verbose adds lines to the errors and changes nothing else. A set of
patterns is an exception, as every command searches for its members in an order of its own.
-/
namespace SchemaModels.Command

open Config (AgreeOn)

variable {platform : Platform} {tree : FileTree} {directory : String}

/-- The directory that a text names. -/
def directoryOf (tree : FileTree) (text : String) : Path :=
  Path.resolve tree.working (Path.ofText text)

theorem directoryAt_eq_ok_iff {found : Path} : directoryAt tree directory = .ok found ↔
    nullOnWay tree directory = false ∧ found = directoryOf tree directory ∧
      tree.exists? found.text = true := by
  change (if nullOnWay tree directory then _
    else if tree.exists? (directoryOf tree directory).text then _ else _) = _ ↔ _
  constructor
  · intro h
    split at h
    · cases h
    · rename_i hNull
      split at h
      · rename_i hExists
        obtain rfl := Except.ok.inj h
        exact ⟨Bool.eq_false_iff.mpr hNull, rfl, hExists⟩
      · cases h
  · rintro ⟨hNull, rfl, hExists⟩
    rw [if_neg (by simp [hNull]), if_pos hExists]
    rfl

/-- A project is a directory that is there, with a configuration that can be loaded. -/
theorem projectAt_eq_ok_iff {root : Path} {config : Config} :
    projectAt platform tree directory = .ok (root, config) ↔
      nullOnWay tree directory = false ∧ root = directoryOf tree directory ∧
        tree.exists? root.text = true ∧ tree.exists? (configFile root).text = true ∧
        Config.load platform tree (configFile root) = .ok config := by
  rw [projectAt, bind_eq_ok_iff]
  simp only [directoryAt_eq_ok_iff]
  constructor
  · rintro ⟨found, ⟨hNull, hFound, hExists⟩, h⟩
    split at h
    · rename_i hConfig
      split at h
      · rename_i hLoad
        cases h
        exact ⟨hNull, hFound, hExists, hConfig, hLoad⟩
      · cases h
    · cases h
  · rintro ⟨hNull, hRoot, hExists, hConfig, hLoad⟩
    refine ⟨root, ⟨hNull, hRoot, hExists⟩, ?_⟩
    rw [if_pos hConfig, hLoad]
    rfl

/-- The directory of a project is the one that its text names. -/
theorem eq_directoryOf_of_projectAt {root : Path} {config : Config}
    (h : projectAt platform tree directory = .ok (root, config)) :
    root = directoryOf tree directory :=
  (projectAt_eq_ok_iff.mp h).2.1

/-- The set that a project has for the patterns. -/
def projectSet? (platform : Platform) (tree : FileTree) (directory : String) :
    Option (List Yaml.Data) :=
  Config.fileSet? platform tree (configFile (directoryOf tree directory))

section Ordered

variable {first second : SetOrder}
  (hAgree : AgreeOn first second (projectSet? platform tree directory))

include hAgree

theorem projectAt_ordered : projectAt (platform.ordered first) tree directory =
    projectAt (platform.ordered second) tree directory := by
  unfold projectAt
  cases hDirectory : directoryAt tree directory with
  | error e => rfl
  | ok found =>
      obtain ⟨-, rfl, -⟩ := directoryAt_eq_ok_iff.mp hDirectory
      simp only [Bind.bind, Except.bind, Config.load_ordered hAgree]

theorem withModels_ordered (verbose : Bool)
    (next : Path → Config → List String → List Model → Outcome) :
    withModels (platform.ordered first) tree directory verbose next =
      withModels (platform.ordered second) tree directory verbose next := by
  unfold withModels
  rw [projectAt_ordered hAgree]
  rfl

end Ordered

/-- How far a project gets, with the lines about the way there: to its models, or to a
failure that no command gets past. -/
theorem withModels_cases (platform : Platform) (tree : FileTree) (directory : String) :
    (∃ lines failure, ∀ verbose next, withModels platform tree directory verbose next =
      .failure tree (if verbose then lines else []) failure) ∨
    ∃ root config lines models, projectAt platform tree directory = .ok (root, config) ∧
      (introspect tree (config.toOptions root) platform.codecs).outcome = .ok models ∧
      ∀ verbose next, withModels platform tree directory verbose next =
        next root config (if verbose then lines else []) models := by
  unfold withModels
  cases hProject : projectAt platform tree directory with
  | error failure => exact Or.inl ⟨[], failure, by simp⟩
  | ok project =>
      obtain ⟨root, config⟩ := project
      cases hRun : (introspect tree (config.toOptions root) platform.codecs).outcome with
      | error failure =>
          refine Or.inl ⟨(introspect tree (config.toOptions root) platform.codecs).events.map
            eventLine, .ofIntrospection failure, fun verbose next => ?_⟩
          simp only [hRun, eventLines]
      | ok models =>
          refine Or.inr ⟨root, config,
            (introspect tree (config.toOptions root) platform.codecs).events.map eventLine,
            models, rfl, hRun, fun verbose next => ?_⟩
          simp only [hRun, eventLines]

section

variable (platform : Platform) (tree : FileTree) (directory : String)

theorem perform_check (verbose : Bool) : perform platform tree (.check directory verbose) =
    withModels platform tree directory verbose fun _ _ errors models =>
      .success tree errors (summary models) := rfl

theorem perform_introspect (output : Option String) (verbose : Bool) :
    perform platform tree (.introspect directory output verbose) =
      withModels platform tree directory verbose fun root config errors models =>
        match output.or config.output with
        | none => .success tree errors [Artifact.write models]
        | some target => writeModels tree errors (root.join (Path.ofText target)) models := rfl

end

/-- Orders that the patterns cannot tell apart change nothing. -/
theorem perform_ordered {first second : SetOrder}
    (h : AgreeOn first second (projectSet? platform tree directory)) :
    (∀ verbose, perform (platform.ordered first) tree (.check directory verbose) =
      perform (platform.ordered second) tree (.check directory verbose)) ∧
    ∀ output verbose,
      perform (platform.ordered first) tree (.introspect directory output verbose) =
        perform (platform.ordered second) tree (.introspect directory output verbose) := by
  refine ⟨fun verbose => ?_, fun output verbose => ?_⟩
  · rw [perform_check, perform_check, withModels_ordered h]
  · rw [perform_introspect, perform_introspect, withModels_ordered h]

/-- An outcome with some more lines in front of its errors. -/
def Outcome.heard (outcome : Outcome) (lines : List String) : Outcome :=
  { outcome with errors := lines ++ outcome.errors }

theorem heard_success (tree : FileTree) (lines errors printed : List String) :
    (Outcome.success tree errors printed).heard lines =
      .success tree (lines ++ errors) printed := rfl

theorem heard_failure (tree : FileTree) (lines errors : List String) (failure : Failure) :
    (Outcome.failure tree errors failure).heard lines =
      .failure tree (lines ++ errors) failure := by
  cases failure with
  | reported error => simp [Outcome.failure, Outcome.heard]
  | broken breakdown => rfl

theorem heard_writeModels (tree : FileTree) (lines errors : List String) (path : Path)
    (models : List Model) :
    (writeModels tree errors path models).heard lines =
      writeModels tree (lines ++ errors) path models := by
  unfold writeModels
  rcases Artifact.save tree path models with ⟨left, e | e⟩
  · rfl
  · exact heard_failure left lines errors _

/-- Being verbose adds the same lines to the errors of all commands that run a project,
and changes nothing else. -/
theorem perform_verbose (platform : Platform) (tree : FileTree) (directory : String) : ∃ lines,
    perform platform tree (.check directory true) =
      (perform platform tree (.check directory false)).heard lines ∧
    ∀ output, perform platform tree (.introspect directory output true) =
      (perform platform tree (.introspect directory output false)).heard lines := by
  rcases withModels_cases platform tree directory with
    ⟨lines, failure, hRun⟩ | ⟨root, config, lines, models, -, -, hRun⟩
  · refine ⟨lines, ?_, fun output => ?_⟩
    · simp [perform_check, hRun, heard_failure]
    · simp [perform_introspect, hRun, heard_failure]
  · refine ⟨lines, ?_, fun output => ?_⟩
    · simp [perform_check, hRun, heard_success]
    · rw [perform_introspect, perform_introspect, hRun, hRun]
      cases output.or config.output with
      | none => simp [heard_success]
      | some target => simp [heard_writeModels]

/-- The file that an output names. A relative one belongs to the directory of the
project. -/
def outputFile (tree : FileTree) (directory file : String) : Path :=
  (directoryOf tree directory).join (Path.ofText file)

theorem modelLine_eq (m : Model) : modelLine m =
    m.name ++ " [" ++ m.source ++ "]: " ++ (toString m.fields.length ++ " field(s), " ++
      toString (m.fields.filter (·.type.isReference)).length ++ " relation(s)") := by
  rw [modelLine, Model.relations, List.countP_eq_length_filter]
  rfl

/-- The lines about some models are one for each of them and one for their number,
unless there are none. -/
theorem summary_of_ne_nil {models : List Model} (h : models ≠ []) :
    summary models =
      models.map modelLine ++ ["Checked " ++ toString models.length ++ " model(s)."] := by
  rw [summary]
  · rfl
  · exact h

theorem summary_eq_iff {models : List Model} :
    summary models = ["No models found."] ↔ models = [] := by
  cases models with
  | nil => simp [summary]
  | cons m rest => simp [summary]

/-- A file that can be written gets the artifact of some models, which loads as the
models. -/
theorem writeModels_of_takesFile {path : Path} (hPath : tree.TakesFile path)
    {models : List Model} (hKeys : ∀ m ∈ models, m.Every Value.HasDistinctKeys)
    (hDigits : ∀ m ∈ models, m.Every Value.HasFewDigits) (errors : List String) :
    (writeModels tree errors path models).ending = .code 0 ∧
      (writeModels tree errors path models).tree.read path =
        .ok (utf8Bytes (Artifact.write models)) ∧
      Artifact.load (writeModels tree errors path models).tree path =
        .ok (models.map Model.coded) := by
  obtain ⟨written, hWritten⟩ := hPath.exists_written (utf8Bytes (Artifact.write models))
  have hSave : Artifact.save tree path models = (written, none) := hWritten
  rw [writeModels, hSave]
  exact ⟨rfl, FileTree.read_of_writeBelow hWritten,
    Artifact.load_save (Artifact.read_write_coded hKeys hDigits) hSave⟩

/-- A failure does not end with code zero. -/
theorem failure_ending_ne (tree : FileTree) (errors : List String) (failure : Failure) :
    (Outcome.failure tree errors failure).ending ≠ .code 0 := by
  cases failure <;> simp [Outcome.failure]

theorem failure_tree (tree : FileTree) (errors : List String) (failure : Failure) :
    (Outcome.failure tree errors failure).tree = tree := by
  cases failure with
  | reported error => rfl
  | broken breakdown => rfl

/-- Whether a run ends with a code. -/
def Ending.hasCode (code : Nat) : Ending → Bool
  | .code n => n == code
  | .broken _ | .unprinted _ => false

theorem Ending.hasCode_iff {ending : Ending} {code : Nat} :
    ending.hasCode code = true ↔ ending = .code code := by
  cases ending with
  | code n => simp [hasCode]
  | broken breakdown => simp [hasCode]
  | unprinted message => simp [hasCode]

/-- What a task does where sets come in an order of its own for every task. -/
def performOrdered (platform : Platform) (orders : Task → SetOrder) (tree : FileTree)
    (task : Task) : Outcome :=
  perform (platform.ordered (orders task)) tree task

/-- Where the patterns are no set, or one that all commands arrange alike, and no output is
configured, checking a project and showing its models end in the same way, with the same
errors. When they end well there are models that all commands agree on: they are shown as
their artifact, a file that can be written gets just the artifact and loads as the models,
and checking prints a line for each of them and one for their number, or only that there
are none. Being verbose adds the same lines to the errors of all commands, and changes
nothing else. -/
theorem commands_agree {orders : Task → SetOrder}
    (hOrders : ∀ one other, AgreeOn (orders one) (orders other)
      (projectSet? platform tree directory))
    (hOutput : ∀ task root config,
      projectAt (platform.ordered (orders task)) tree directory = .ok (root, config) →
        config.output = none) :
    (∀ verbose,
      (performOrdered platform orders tree (.check directory verbose)).ending =
        (performOrdered platform orders tree (.introspect directory none verbose)).ending ∧
      (performOrdered platform orders tree (.check directory verbose)).errors =
        (performOrdered platform orders tree (.introspect directory none verbose)).errors) ∧
    ((performOrdered platform orders tree (.check directory false)).ending = .code 0 →
      ∃ models, ∀ verbose,
        (performOrdered platform orders tree (.introspect directory none verbose)).printed =
          [Artifact.write models] ∧
        (∀ file, tree.TakesFile (outputFile tree directory file) →
          (performOrdered platform orders tree
            (.introspect directory (some file) verbose)).ending = .code 0 ∧
          (performOrdered platform orders tree
            (.introspect directory (some file) verbose)).tree.read
              (outputFile tree directory file) = .ok (utf8Bytes (Artifact.write models)) ∧
          Artifact.load (performOrdered platform orders tree
            (.introspect directory (some file) verbose)).tree
              (outputFile tree directory file) = .ok (models.map Model.coded)) ∧
        ((performOrdered platform orders tree (.check directory verbose)).printed =
          ["No models found."] ↔ models = []) ∧
        (models ≠ [] →
          (performOrdered platform orders tree (.check directory verbose)).printed =
            models.map (fun m => m.name ++ " [" ++ m.source ++ "]: " ++
              (toString m.fields.length ++ " field(s), " ++
                toString (m.fields.filter (·.type.isReference)).length ++ " relation(s)")) ++
            ["Checked " ++ toString models.length ++ " model(s)."])) ∧
    ∃ lines, performOrdered platform orders tree (.check directory true) =
        (performOrdered platform orders tree (.check directory false)).heard lines ∧
      ∀ output, performOrdered platform orders tree (.introspect directory output true) =
        (performOrdered platform orders tree (.introspect directory output false)).heard
          lines := by
  -- all tasks are done as they are in the order of one of them
  have hOutput := hOutput (.check directory false)
  generalize hOne : orders (.check directory false) = order at hOutput
  have hCheck (verbose : Bool) :
      performOrdered platform orders tree (.check directory verbose) =
        perform (platform.ordered order) tree (.check directory verbose) :=
    (perform_ordered (hOne ▸ hOrders _ _)).1 verbose
  have hShow (output : Option String) (verbose : Bool) :
      performOrdered platform orders tree (.introspect directory output verbose) =
        perform (platform.ordered order) tree (.introspect directory output verbose) :=
    (perform_ordered (hOne ▸ hOrders _ _)).2 output verbose
  simp only [hCheck, hShow]
  have hCases := withModels_cases (platform.ordered order) tree directory
  refine ⟨fun verbose => ?_, fun hEnding => ?_, perform_verbose _ tree directory⟩
  · rcases hCases with
      ⟨lines, failure, hRun⟩ | ⟨root, config, lines, models, hProject, hModels, hRun⟩
    · rw [perform_check, perform_introspect, hRun, hRun]
      exact ⟨rfl, rfl⟩
    · rw [perform_check, perform_introspect, hRun, hRun, hOutput root config hProject]
      exact ⟨rfl, rfl⟩
  · rcases hCases with
      ⟨lines, failure, hRun⟩ | ⟨root, config, lines, models, hProject, hModels, hRun⟩
    · rw [perform_check, hRun] at hEnding
      exact (failure_ending_ne _ _ _ hEnding).elim
    · refine ⟨models, fun verbose => ⟨?_, fun file hFile => ?_, ?_, fun hSome => ?_⟩⟩
      · rw [perform_introspect, hRun, hOutput root config hProject]
        rfl
      · have hRoot := eq_directoryOf_of_projectAt hProject
        rw [perform_introspect, hRun]
        subst hRoot
        exact writeModels_of_takesFile hFile
          (introspect_every Artifact.isDecoded_hasDistinctKeys.isGiven hModels)
          (introspect_every Artifact.isDecoded_hasFewDigits.isGiven hModels) _
      · rw [perform_check, hRun]
        exact summary_eq_iff
      · rw [perform_check, hRun, ← funext modelLine_eq]
        exact summary_of_ne_nil hSome

theorem run_of_read {arguments : List String} {task : Task}
    (h : Request.read arguments = .task task) :
    run platform tree arguments = perform platform tree task := by
  rw [run, h]

/-- An order against that of the text. -/
def backwards : SetOrder := ⟨List.reverse, List.reverse_perm⟩

/-- Orders that differ between checking a project and the other commands. -/
def checkBackwards : Task → SetOrder
  | .check _ _ => backwards
  | _ => .asWritten

/-- A project with one file, in the working directory. -/
def smallProject : FileTree :=
  ⟨[([".gqlmodel.yaml"], .file (utf8Bytes "path: a\n")),
    (["a"], .file (utf8Bytes "type T @source(name: \"m\") \x7b f: U \x7d"))], []⟩

/-- The patterns of the project are no set, and it has no output. -/
theorem smallProject_config : projectSet? .bare smallProject "." = none ∧
    (projectAt (Platform.bare.ordered .asWritten) smallProject ".").toOption.map
      (·.2.output) = some none := by
  decide +kernel

theorem smallProject_output (order : SetOrder) {root : Path} {config : Config}
    (h : projectAt (Platform.bare.ordered order) smallProject "." = .ok (root, config)) :
    config.output = none := by
  obtain ⟨hNoSet, hOutput⟩ := smallProject_config
  have hSame : projectAt (Platform.bare.ordered order) smallProject "." =
      projectAt (Platform.bare.ordered .asWritten) smallProject "." :=
    projectAt_ordered (Config.agreeOn_of_eq_none hNoSet)
  rw [← hSame, h] at hOutput
  exact Option.some.inj hOutput

theorem smallProject_agrees : ∃ models : List Model, models ≠ [] ∧
    (performOrdered .bare checkBackwards smallProject (.introspect "." none false)).printed =
      [Artifact.write models] ∧
    (performOrdered .bare checkBackwards smallProject (.check "." true)).printed =
      ["T [m]: 1 field(s), 1 relation(s)", "Checked 1 model(s)."] ∧
    Artifact.load (performOrdered .bare checkBackwards smallProject
      (.introspect "." (some "out/b") false)).tree (outputFile smallProject "." "out/b") =
        .ok (models.map Model.coded) := by
  obtain ⟨hTaken, hLines, hCode⟩ :
      (smallProject.writeBelow (outputFile smallProject "." "out/b") []).2 = none ∧
      (performOrdered .bare checkBackwards smallProject (.check "." true)).printed =
        ["T [m]: 1 field(s), 1 relation(s)", "Checked 1 model(s)."] ∧
      (performOrdered .bare checkBackwards smallProject (.check "." false)).ending.hasCode 0 =
        true := by
    decide +kernel
  have hFile : smallProject.TakesFile (outputFile smallProject "." "out/b") :=
    ⟨[], _, Prod.ext rfl hTaken⟩
  have hEnding : (performOrdered .bare checkBackwards smallProject (.check "." false)).ending =
      .code 0 := Ending.hasCode_iff.mp hCode
  obtain ⟨-, hModels, -⟩ :=
    commands_agree (fun _ _ => Config.agreeOn_of_eq_none smallProject_config.1)
      fun task _ _ => smallProject_output (checkBackwards task)
  obtain ⟨models, hAgree⟩ := hModels hEnding
  obtain ⟨hShown, hWritten, -⟩ := hAgree false
  obtain ⟨-, -, hNone, -⟩ := hAgree true
  refine ⟨models, fun hNil => ?_, hShown, hLines, (hWritten "out/b" hFile).2.2⟩
  have hEmpty := hNone.mpr hNil
  rw [hLines] at hEmpty
  exact absurd hEmpty (by decide)

/-- A project whose patterns are a set, of two files that both cannot be parsed. -/
def setProject : FileTree :=
  ⟨[([".gqlmodel.yaml"], .file (utf8Bytes "path: !!set \x7ba, b\x7d\n")),
    (["a"], .file (utf8Bytes "x")), (["b"], .file (utf8Bytes "x"))], []⟩

/-- The commands do not agree on a set that they arrange in different ways. -/
theorem setProject_disagrees :
    (performOrdered .bare checkBackwards setProject (.check "." false)).errors ≠
      (performOrdered .bare checkBackwards setProject (.introspect "." none false)).errors := by
  decide +kernel

end SchemaModels.Command
