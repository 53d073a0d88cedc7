import SchemaModels.Proofs.Command.Agreement
import SchemaModels.Proofs.Files.Changes
import SchemaModels.Proofs.Project.Starter

/-!
Starting a project. Where a directory has no configuration, a first one is made, which
can be loaded. A configuration that is there is never changed. That the directory is not
a file is not checked, so that it is found out only when the configuration is written.
-/
namespace SchemaModels

/-- The configuration that a project starts with. -/
def Config.first : Config := ⟨[Config.starterPattern], "utf-8", none, .plain, none⟩

theorem Config.load_starter {tree written : FileTree} {path : Path}
    (h : tree.write path (utf8Bytes (Config.starter Config.starterPattern)) = .ok written)
    (foreign : String → Decoder) (order : SetOrder) :
    Config.load (.of (Encoding.codecs foreign) order) written path = .ok Config.first := by
  have hFeeds : '\r' ∉ (Config.starter Config.starterPattern).toList := by decide +kernel
  rw [Config.load, FileTree.readText_of_read hFeeds (FileTree.read_of_write h)]
  exact Config.parse_starter foreign order path.text Config.starterPattern

namespace Command

variable {platform : Platform} {tree : FileTree}

/-- A first configuration is made: one file where nothing was, which can be loaded. -/
structure Creates (tree after : FileTree) (file : Path) : Prop where
  created : ∃ place content, tree.at? place = none ∧ after.locate file.text = .ok place ∧
    after.at? place = some (.file content) ∧
    ∀ other, other ≠ place → after.at? other = tree.at? other
  loads (foreign : String → Decoder) (order : SetOrder) :
    Config.load (.of (Encoding.codecs foreign) order) after file = .ok Config.first

/-- An error is reported and nothing is changed. -/
structure Reports (tree : FileTree) (outcome : Outcome) : Prop where
  ending : outcome.ending = .code 1
  tree : outcome.tree = tree
  errors : ∃ message, outcome.errors = ["Error: " ++ message]

theorem reports_failure (tree : FileTree) (error : TaskError) :
    Reports tree (.failure tree [] (.reported error)) where
  ending := rfl
  tree := rfl
  errors := ⟨error.message, rfl⟩

section Broken

variable {outcome : Outcome} {breakdown : Breakdown} (hEnding : outcome.ending = .broken breakdown)

include hEnding

theorem ending_ne_of_broken (code : Nat) : outcome.ending ≠ .code code := by
  rw [hEnding]
  exact fun h => by cases h

theorem not_reports_of_broken : ¬Reports tree outcome :=
  fun hReports => ending_ne_of_broken hEnding 1 hReports.ending

/-- What is not foreseen is neither of both. -/
theorem neither_of_broken {after : FileTree} {file : Path} :
    ¬((outcome.ending = .code 0 ∧ Creates tree after file) ∨ Reports tree outcome) := by
  rintro (⟨hCode, -⟩ | hReports)
  · exact ending_ne_of_broken hEnding 0 hCode
  · exact not_reports_of_broken hEnding hReports

end Broken

theorem configFile_eq (directory : Path) :
    configFile directory = directory.below [Config.fileName] := by
  have hFile : Path.ofText Config.fileName = ⟨.relative, [Config.fileName]⟩ := by decide
  rw [configFile, hFile]
  rfl

theorem isName_fileName : Path.IsName Config.fileName := by decide

/-- Without a null on the way to a directory there is none on that to its configuration. -/
theorem hasNull_configFile {text : String} (h : nullOnWay tree text = false) :
    (configFile (directoryOf tree text)).hasNull = false := by
  have hParts : (directoryOf tree text).hasNull = false := (Bool.or_eq_false_iff.mp h).2
  have hName : (Config.fileName.toList.contains '\x00') = false := by decide
  rw [Path.hasNull] at hParts
  simp only [configFile_eq, Path.hasNull, Path.below, List.any_append, hParts, List.any_cons,
    hName, List.any_nil, Bool.or_false]

theorem startProject_of_null {text : String} (h : nullOnWay tree text = true) :
    startProject tree text =
      .error (.broken (.file ⟨.nullInPath, (directoryOf tree text).text⟩)) := by
  have hNo : directoryAt tree text =
      .error (.broken (.file ⟨.nullInPath, (directoryOf tree text).text⟩)) := if_pos h
  rw [startProject, hNo]
  rfl

section Path

variable {text : String} (hNull : nullOnWay tree text = false)

include hNull

theorem startProject_of_missing (h : tree.exists? (directoryOf tree text).text = false) :
    startProject tree text = .error (.reported (.noDirectory (directoryOf tree text))) := by
  have hNo : directoryAt tree text =
      .error (.reported (.noDirectory (directoryOf tree text))) :=
    (if_neg (by simp [hNull])).trans (if_neg (Bool.eq_false_iff.mp h))
  rw [startProject, hNo]
  rfl

variable (hThere : tree.exists? (directoryOf tree text).text = true)

include hThere

theorem directoryAt_of_exists : directoryAt tree text = .ok (directoryOf tree text) :=
  directoryAt_eq_ok_iff.mpr ⟨hNull, rfl, hThere⟩

theorem startProject_of_configured
    (hConfig : tree.exists? (configFile (directoryOf tree text)).text = true) :
    startProject tree text =
      .error (.reported (.configured (configFile (directoryOf tree text)))) := by
  rw [startProject, directoryAt_of_exists hNull hThere]
  simp [Bind.bind, Except.bind, hConfig, throw, throwThe, MonadExceptOf.throw]

theorem startProject_of_written {written : FileTree}
    (hNew : tree.exists? (configFile (directoryOf tree text)).text = false)
    (hWrite : tree.write (configFile (directoryOf tree text))
      (utf8Bytes (Config.starter Config.starterPattern)) = .ok written) :
    startProject tree text = .ok (written, configFile (directoryOf tree text)) := by
  rw [startProject, directoryAt_of_exists hNull hThere]
  simp [Bind.bind, Except.bind, hNew, hWrite, pure, Except.pure]

theorem startProject_of_unwritten {e : FileError}
    (hNew : tree.exists? (configFile (directoryOf tree text)).text = false)
    (hWrite : tree.write (configFile (directoryOf tree text))
      (utf8Bytes (Config.starter Config.starterPattern)) = .error e) :
    startProject tree text = .error (.broken (.file e)) := by
  rw [startProject, directoryAt_of_exists hNull hThere]
  simp [Bind.bind, Except.bind, hNew, hWrite, throw, throwThe, MonadExceptOf.throw]

end Path

/-- A project is started by writing a configuration where there is none. -/
theorem write_of_startProject {text : String} {written : FileTree} {file : Path}
    (h : startProject tree text = .ok (written, file)) :
    tree.exists? file.text = false ∧
      tree.write file (utf8Bytes (Config.starter Config.starterPattern)) = .ok written := by
  obtain ⟨directory, -, h⟩ := bind_eq_ok_iff.mp h
  dsimp only at h
  split at h
  · cases h
  · rename_i hNew
    split at h
    · rename_i hWrite
      cases h
      exact ⟨Bool.eq_false_iff.mpr hNew, hWrite⟩
    · cases h

/-- In a directory without a configuration a first one can be made. -/
theorem exists_creates {directory : Path} (hPath : directory.IsNormal)
    (hNull : (configFile directory).hasNull = false) {place : List String}
    (hPlace : tree.LeadsTo directory place .directory)
    (hNew : tree.exists? (configFile directory).text = false) : ∃ written,
      tree.write (configFile directory) (utf8Bytes (Config.starter Config.starterPattern)) =
        .ok written ∧ Creates tree written (configFile directory) := by
  generalize hStarter : utf8Bytes (Config.starter Config.starterPattern) = content
  rw [configFile_eq] at hNull hNew ⊢
  obtain ⟨hLocate, hNone, hWrite⟩ :=
    FileTree.write_below_directory hPath isName_fileName hNull hPlace hNew content
  have hFree : tree.at? (place ++ [Config.fileName]) ≠ some .directory := by simp [hNone]
  refine ⟨_, hWrite, ⟨_, content, hNone, FileTree.locate_put hFree _ hLocate,
    FileTree.at?_put_self (by simp) _, fun other hOther =>
      FileTree.at?_put_of_ne hOther.symm _⟩, ?_⟩
  subst hStarter
  exact Config.load_starter hWrite

theorem perform_init_of_error {text : String} {failure : Failure}
    (h : startProject tree text = .error failure) :
    perform platform tree (.init text) = .failure tree [] failure := by
  unfold perform
  simp only [h]

theorem perform_init_of_ok {text : String} {written : FileTree} {file : Path}
    (h : startProject tree text = .ok (written, file)) : perform platform tree (.init text) =
      .success written [] ["Initialized GqlModel project at '" ++ file.text ++ "'."] := by
  unfold perform
  simp only [h]

/-- How the start of a project goes: the directory has a null in its path or is a file, which
is not foreseen, or a first configuration is made, or an error is reported. -/
theorem perform_init_cases (platform : Platform) (hTree : tree.HasNames) (text : String) :
    (nullOnWay tree text = true ∧ perform platform tree (.init text) =
      ⟨tree, [], [], .broken (.file ⟨.nullInPath, (directoryOf tree text).text⟩)⟩) ∨
    (nullOnWay tree text = false ∧ tree.isFile (directoryOf tree text).text = true ∧
      perform platform tree (.init text) = ⟨tree, [], [], .broken (.file
        ⟨.notDirectory, (configFile (directoryOf tree text)).text⟩)⟩) ∨
    (nullOnWay tree text = false ∧ tree.isFile (directoryOf tree text).text = false ∧
      (((perform platform tree (.init text)).ending = .code 0 ∧
        Creates tree (perform platform tree (.init text)).tree
          (configFile (directoryOf tree text))) ∨
      Reports tree (perform platform tree (.init text)))) := by
  have hPath : (directoryOf tree text).IsNormal :=
    FileTree.isNormal_resolve hTree (Path.isNormal_ofText text)
  cases hNull : nullOnWay tree text with
  | true =>
      rw [perform_init_of_error (startProject_of_null hNull)]
      exact .inl ⟨rfl, rfl⟩
  | false =>
  cases hThere : tree.exists? (directoryOf tree text).text with
  | false =>
      have hFile : tree.isFile (directoryOf tree text).text = false := by
        rw [Bool.eq_false_iff] at hThere ⊢
        exact fun hFile => hThere (FileTree.exists_iff.mpr (.inr hFile))
      rw [perform_init_of_error (startProject_of_missing hNull hThere)]
      exact .inr (.inr ⟨rfl, hFile, .inr (reports_failure tree _)⟩)
  | true =>
      cases hConfig : tree.exists? (configFile (directoryOf tree text)).text with
      | true =>
          rw [perform_init_of_error (startProject_of_configured hNull hThere hConfig)]
          rw [configFile_eq] at hConfig
          obtain ⟨place, hPlace⟩ :=
            FileTree.isDirectory_of_exists_below hPath isName_fileName hConfig
          exact .inr (.inr ⟨rfl, FileTree.isFile_eq_false_of_leadsTo hPath hPlace,
            .inr (reports_failure tree _)⟩)
      | false =>
          have hNames := hasNull_configFile hNull
          rcases FileTree.exists_iff.mp hThere with hDirectory | hFile
          · have hPlace := (FileTree.isDirectory_iff.mp hDirectory).2
            rw [Path.ofText_text hPath] at hPlace
            obtain ⟨place, hPlace⟩ := hPlace
            obtain ⟨written, hWrite, hCreates⟩ := exists_creates hPath hNames hPlace hConfig
            rw [perform_init_of_ok (startProject_of_written hNull hThere hConfig hWrite)]
            exact .inr (.inr ⟨rfl, FileTree.isFile_eq_false_of_leadsTo hPath hPlace,
              .inl ⟨rfl, hCreates⟩⟩)
          · have hPlace := (FileTree.isFile_iff.mp hFile).2
            rw [Path.ofText_text hPath] at hPlace
            obtain ⟨place, found, hPlace⟩ := hPlace
            have hBroken := FileTree.write_below_file hPath isName_fileName
              (configFile_eq _ ▸ hNames) hPlace
              (utf8Bytes (Config.starter Config.starterPattern))
            rw [← configFile_eq] at hBroken
            rw [perform_init_of_error (startProject_of_unwritten hNull hThere hConfig hBroken)]
            exact .inr (.inl ⟨rfl, hFile, rfl⟩)

/-- Starting a project changes nothing that is there. -/
theorem perform_init_kept (text : String) {place : List String} {entry : Entry}
    (h : tree.at? place = some entry) :
    (perform platform tree (.init text)).tree.at? place = some entry := by
  cases hStart : startProject tree text with
  | error failure =>
      rw [perform_init_of_error hStart, failure_tree]
      exact h
  | ok started =>
      obtain ⟨written, file⟩ := started
      obtain ⟨hNew, hWrite⟩ := write_of_startProject hStart
      rw [perform_init_of_ok hStart]
      obtain ⟨other, hOther, -, rfl⟩ := FileTree.exists_put_of_write hWrite
      have hNe : other ≠ place := by
        rintro rfl
        rw [FileTree.exists?, FileTree.find_eq_ok_iff_locate.mpr ⟨_, hOther, h⟩] at hNew
        cases hNew
      exact (FileTree.at?_put_of_ne hNe _).trans h

/-- A run that starts a project makes a first configuration where there is none, or it
reports an error and changes nothing; but a null in the path of the directory is not
foreseen, and neither is, if the directory is a file, that the configuration cannot be
written. No such runs change anything that is there, a configuration in particular. -/
theorem run_init (platform : Platform) (hTree : tree.HasNames) :
    (∀ arguments text, Request.read arguments = .task (.init text) →
      (nullOnWay tree text = false ∧ tree.isFile (directoryOf tree text).text = false ↔
        ((run platform tree arguments).ending = .code 0 ∧
          Creates tree (run platform tree arguments).tree
            (configFile (directoryOf tree text))) ∨
        Reports tree (run platform tree arguments)) ∧
      (nullOnWay tree text = true → run platform tree arguments =
        ⟨tree, [], [], .broken (.file ⟨.nullInPath, (directoryOf tree text).text⟩)⟩) ∧
      (nullOnWay tree text = false → tree.isFile (directoryOf tree text).text = true →
        run platform tree arguments = ⟨tree, [], [], .broken (.file
          ⟨.notDirectory, (configFile (directoryOf tree text)).text⟩)⟩)) ∧
    ∀ commands : List (List String),
      (∀ arguments ∈ commands, ∃ text, Request.read arguments = .task (.init text)) →
      ∀ place entry, tree.at? place = some entry →
        (commands.foldl (fun tree arguments => (run platform tree arguments).tree) tree).at?
          place = some entry := by
  refine ⟨fun arguments text hRead => ?_, fun commands hCommands place entry => ?_⟩
  · rw [run_of_read hRead]
    rcases perform_init_cases platform hTree text with
      ⟨hNull, hRun⟩ | ⟨hNull, hFile, hRun⟩ | ⟨hNull, hFile, hRun⟩
    · refine ⟨⟨fun h => ?_, fun h => (neither_of_broken (by rw [hRun]) h).elim⟩, fun _ => hRun,
        fun h => ?_⟩
      · exact absurd h.1 (by simp [hNull])
      · exact absurd h (by simp [hNull])
    · refine ⟨⟨fun h => ?_, fun h => (neither_of_broken (by rw [hRun]) h).elim⟩, fun h => ?_,
        fun _ _ => hRun⟩
      · exact absurd h.2 (by simp [hFile])
      · exact absurd h (by simp [hNull])
    · refine ⟨⟨fun _ => hRun, fun _ => ⟨hNull, hFile⟩⟩, fun h => ?_, fun _ h => ?_⟩
      · exact absurd h (by simp [hNull])
      · exact absurd h (by simp [hFile])
  · clear hTree
    induction commands generalizing tree with
    | nil => exact id
    | cons arguments rest ih =>
        intro hAt
        obtain ⟨⟨text, hRead⟩, hRest⟩ := List.forall_mem_cons.mp hCommands
        rw [List.foldl_cons, run_of_read hRead]
        exact ih hRest (perform_init_kept text hAt)

/-- A directory without a project, beside a file. -/
def bareDirectory : FileTree := ⟨[(["d"], .directory), (["f"], .file [])], []⟩

theorem bareDirectory_hasNames : bareDirectory.HasNames := by decide

theorem bareDirectory_init :
    Creates bareDirectory (run .bare bareDirectory ["init", "d"]).tree
        ⟨.top, ["d", Config.fileName]⟩ ∧
    ([["init", "d"], ["init"], ["init", "d"]].foldl
      (fun tree arguments => (run .bare tree arguments).tree) bareDirectory).at? ["f"] =
        some (.file []) := by
  have hRead : Request.read ["init", "d"] = .task (.init "d") := by decide
  have hReadHere : Request.read ["init"] = .task (.init ".") := by decide
  have hNull : nullOnWay bareDirectory "d" = false := by decide
  have hFile : bareDirectory.isFile (directoryOf bareDirectory "d").text = false := by cbv
  have hPath : configFile (directoryOf bareDirectory "d") = ⟨.top, ["d", Config.fileName]⟩ := by
    decide
  have hEnding : (run .bare bareDirectory ["init", "d"]).ending = .code 0 :=
    Ending.hasCode_iff.mp (by decide +kernel)
  obtain ⟨hRun, hKept⟩ := run_init .bare bareDirectory_hasNames
  refine ⟨?_, hKept _ ?_ _ _ rfl⟩
  · rcases (hRun _ _ hRead).1.mp ⟨hNull, hFile⟩ with ⟨-, hCreates⟩ | hReports
    · rwa [hPath] at hCreates
    · rw [hReports.ending] at hEnding
      cases hEnding
  · simp [hRead, hReadHere]

/-- A file in the place of the directory: what is asked for is neither done nor refused. -/
theorem bareDirectory_init_file :
    (run .bare bareDirectory ["init", "f"]).ending =
        .broken (.file ⟨.notDirectory, "/f/.gqlmodel.yaml"⟩) ∧
      ¬((run .bare bareDirectory ["init", "f"]).ending = .code 0 ∧
        Creates bareDirectory (run .bare bareDirectory ["init", "f"]).tree
          ⟨.top, ["f", Config.fileName]⟩) ∧
      ¬Reports bareDirectory (run .bare bareDirectory ["init", "f"]) := by
  have hRead : Request.read ["init", "f"] = .task (.init "f") := by decide
  have hFile : bareDirectory.isFile (directoryOf bareDirectory "f").text = true := by cbv
  have hText : (configFile (directoryOf bareDirectory "f")).text = "/f/.gqlmodel.yaml" := by
    decide
  have hEnding : (run .bare bareDirectory ["init", "f"]).ending =
      .broken (.file ⟨.notDirectory, "/f/.gqlmodel.yaml"⟩) := by
    rcases perform_init_cases .bare bareDirectory_hasNames "f" with
      ⟨hNull, -⟩ | ⟨-, -, hRun⟩ | ⟨-, hNo, -⟩
    · exact absurd hNull (by decide)
    · rw [run_of_read hRead, hRun, hText]
    · rw [hFile] at hNo
      cases hNo
  exact ⟨hEnding, fun hCreates => ending_ne_of_broken hEnding 0 hCreates.1,
    not_reports_of_broken hEnding⟩

end Command

end SchemaModels
