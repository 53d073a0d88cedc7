import SchemaModels.Proofs.Command.Changes
import SchemaModels.Proofs.Introspection.Unseen

/-!
Rebuilding a project. The output of a run is no part of what the run reads, as long as it
is not the configuration and no pattern selects it. So the next run finds the same models,
and writes the same once more. Only a set of patterns can come in another order then.
-/
namespace SchemaModels.Command

open Config (AgreeOn)

variable {platform : Platform} {tree later : FileTree} {directory : String} {root : Path}
  {config : Config}

/-- A project is found again in a tree that gained a file, unless it is the
configuration. -/
theorem projectAt_later {place : List String} (hGains : tree.GainsFile later place)
    (hConfig : tree.locate (configFile root).text ≠ .ok place)
    (hProject : projectAt platform tree directory = .ok (root, config)) :
    projectAt platform later directory = .ok (root, config) := by
  obtain ⟨hNull, hRoot, hThere, hFile, hLoad⟩ := projectAt_eq_ok_iff.mp hProject
  obtain ⟨target, hTarget⟩ : ∃ target, tree.locate (configFile root).text = .ok target := by
    cases hLocate : tree.locate (configFile root).text with
    | ok target => exact ⟨target, rfl⟩
    | error fault =>
        have hNone : tree.exists? (configFile root).text = false := by
          simp [FileTree.exists?, FileTree.find, hLocate, Bind.bind, Except.bind, Except.toOption]
        rw [hNone] at hFile
        cases hFile
  have hNe : target ≠ place := by
    rintro rfl
    exact hConfig hTarget
  refine projectAt_eq_ok_iff.mpr
    ⟨?_, ?_, hGains.exists_later hThere, hGains.exists_later hFile, ?_⟩
  · rw [nullOnWay, hGains.working]
    exact hNull
  · rw [directoryOf, hGains.working]
    exact hRoot
  · rw [Config.load, hGains.readText_eq hTarget hNe]
    exact hLoad

theorem withModels_of_ok {models : List Model}
    (hProject : projectAt platform tree directory = .ok (root, config))
    (hModels : (introspect tree (config.toOptions root) platform.codecs).outcome = .ok models)
    (verbose : Bool) (next : Path → Config → List String → List Model → Outcome) :
    withModels platform tree directory verbose next =
      next root config
        (eventLines verbose (introspect tree (config.toOptions root) platform.codecs)) models := by
  unfold withModels
  simp only [hProject, hModels]

theorem withModels_of_error {failure : IntrospectionFailure}
    (hProject : projectAt platform tree directory = .ok (root, config))
    (hFailure : (introspect tree (config.toOptions root) platform.codecs).outcome = .error failure)
    (verbose : Bool) (next : Path → Config → List String → List Model → Outcome) :
    withModels platform tree directory verbose next =
      .failure tree (eventLines verbose (introspect tree (config.toOptions root) platform.codecs))
        (.ofIntrospection failure) := by
  unfold withModels
  simp only [hProject, hFailure]

theorem perform_introspect_of_ok {output : Option String} {target : String} {models : List Model}
    (hProject : projectAt platform tree directory = .ok (root, config))
    (hTarget : output.or config.output = some target)
    (hModels : (introspect tree (config.toOptions root) platform.codecs).outcome = .ok models)
    (verbose : Bool) :
    perform platform tree (.introspect directory output verbose) =
      writeModels tree
        (eventLines verbose (introspect tree (config.toOptions root) platform.codecs))
        (outputFile tree directory target) models := by
  rw [perform_introspect, withModels_of_ok hProject hModels]
  simp only [hTarget]
  rw [outputFile, ← eq_directoryOf_of_projectAt hProject]

theorem exists_models_of_ending {output : Option String} {verbose : Bool}
    (hProject : projectAt platform tree directory = .ok (root, config))
    (hEnding : (perform platform tree (.introspect directory output verbose)).ending = .code 0) :
    ∃ models, (introspect tree (config.toOptions root) platform.codecs).outcome = .ok models := by
  cases hRun : (introspect tree (config.toOptions root) platform.codecs).outcome with
  | ok models => exact ⟨models, rfl⟩
  | error failure =>
      rw [perform_introspect, withModels_of_error hProject hRun] at hEnding
      exact absurd hEnding (failure_ending_ne _ _ _)

theorem writeModels_of_save {path : Path} {models : List Model}
    (h : Artifact.save tree path models = (later, none)) (errors : List String) :
    writeModels tree errors path models =
      .success later errors [writtenLine models.length path] := by
  rw [writeModels, h]

theorem exists_save_of_ending {errors : List String} {path : Path} {models : List Model}
    (h : (writeModels tree errors path models).ending = .code 0) :
    ∃ later, Artifact.save tree path models = (later, none) := by
  unfold writeModels at h
  rcases hSave : Artifact.save tree path models with ⟨later, e | e⟩
  · exact ⟨later, rfl⟩
  · rw [hSave] at h
    exact absurd h (failure_ending_ne _ _ _)

/-- Rebuilding a project once, in an order that the patterns cannot tell from the first one:
the second run is like the first one. -/
theorem perform_again (hTree : tree.HasNames) {first second : SetOrder}
    (hAgree : AgreeOn first second (projectSet? platform tree directory))
    {output : Option String} {target : String} {verbose : Bool} {task : Task}
    (hTask : task = .introspect directory output verbose)
    (hProject : projectAt (platform.ordered first) tree directory = .ok (root, config))
    (hTarget : output.or config.output = some target)
    (hEnding : (perform (platform.ordered first) tree task).ending = .code 0)
    (hParent : tree.isDirectory (outputFile tree directory target).parent.text = true)
    (hConfig : tree.locate (outputFile tree directory target).text ≠
      tree.locate (configFile root).text)
    (hPatterns : ∀ path ∈ schemaFiles (perform (platform.ordered first) tree task).tree
        (config.toOptions root).patterns,
      (perform (platform.ordered first) tree task).tree.locate path.text ≠
        (perform (platform.ordered first) tree task).tree.locate
          (outputFile tree directory target).text) :
    perform (platform.ordered second) (perform (platform.ordered first) tree task).tree task =
      perform (platform.ordered first) tree task := by
  subst hTask
  obtain ⟨models, hModels⟩ := exists_models_of_ending hProject hEnding
  rw [perform_introspect_of_ok hProject hTarget hModels] at hEnding hPatterns ⊢
  obtain ⟨later, hSave⟩ := exists_save_of_ending hEnding
  rw [writeModels_of_save hSave, Outcome.success] at hPatterns ⊢
  obtain ⟨place, hPlace, hPut, hGains, hAgain⟩ := FileTree.gainsFile_of_writeBelow hParent hSave
  have hLater : later.HasNames := by
    rw [hPut]
    exact hTree.put (FileTree.isName_of_locate hTree hPlace) _
  have hUnseen : ∀ path ∈ schemaFiles later (config.toOptions root).patterns,
      later.locate path.text ≠ .ok place := by
    intro path hPath
    rw [← hGains.locate_iff.mpr hPlace]
    exact hPatterns path hPath
  have hRun : introspect later (config.toOptions root) (platform.ordered second).codecs =
      introspect tree (config.toOptions root) (platform.ordered first).codecs :=
    introspect_of_unseen hTree hLater hGains hUnseen
  have hFound : projectAt (platform.ordered second) later directory = .ok (root, config) :=
    projectAt_later hGains (hPlace ▸ hConfig.symm) (projectAt_ordered hAgree ▸ hProject)
  have hOutput : outputFile later directory target = outputFile tree directory target := by
    rw [outputFile, directoryOf, hGains.working]
    rfl
  have hSaveAgain : Artifact.save later (outputFile tree directory target) models =
      (later, none) := hAgain
  rw [perform_introspect_of_ok hFound hTarget (hRun ▸ hModels), hRun, hOutput,
    writeModels_of_save hSaveAgain, Outcome.success]

/-- The outcome of a run after some runs with the same arguments, each of them with an order
of its own for sets. -/
def rebuilt (platform : Platform) (orders : Nat → SetOrder) (tree : FileTree)
    (arguments : List String) : Nat → Outcome
  | 0 => run (platform.ordered (orders 0)) tree arguments
  | count + 1 => run (platform.ordered (orders (count + 1)))
      (rebuilt platform orders tree arguments count).tree arguments

/-- Rebuilding a project any number of times: where the patterns are no set, or one that all
runs arrange alike, the directory of the output is there, and the output is not the
configuration and no pattern selects it, all further runs are like the first one, in what
they leave as in what they print. -/
theorem run_again (hTree : tree.HasNames) {orders : Nat → SetOrder}
    (hOrders : ∀ one other, AgreeOn (orders one) (orders other)
      (projectSet? platform tree directory))
    {arguments : List String} {output : Option String} {target : String} {verbose : Bool}
    (hRead : Request.read arguments = .task (.introspect directory output verbose))
    (hProject : projectAt (platform.ordered (orders 0)) tree directory = .ok (root, config))
    (hTarget : output.or config.output = some target)
    (hEnding : (rebuilt platform orders tree arguments 0).ending = .code 0)
    (hParent : tree.isDirectory (outputFile tree directory target).parent.text = true)
    (hConfig : tree.locate (outputFile tree directory target).text ≠
      tree.locate (configFile root).text)
    (hPatterns : ∀ path ∈ schemaFiles (rebuilt platform orders tree arguments 0).tree
        (config.toOptions root).patterns,
      (rebuilt platform orders tree arguments 0).tree.locate path.text ≠
        (rebuilt platform orders tree arguments 0).tree.locate
          (outputFile tree directory target).text) (count : Nat) :
    rebuilt platform orders tree arguments count = rebuilt platform orders tree arguments 0 := by
  have hFirst : rebuilt platform orders tree arguments 0 =
      perform (platform.ordered (orders 0)) tree (.introspect directory output verbose) :=
    run_of_read hRead
  induction count with
  | zero => rfl
  | succ count ih =>
      have hNext : rebuilt platform orders tree arguments (count + 1) =
          perform (platform.ordered (orders (count + 1)))
            (rebuilt platform orders tree arguments count).tree
            (.introspect directory output verbose) := run_of_read hRead
      rw [hNext, ih]
      rw [hFirst] at hEnding hPatterns ⊢
      exact perform_again hTree (hOrders 0 (count + 1)) rfl hProject hTarget hEnding hParent
        hConfig hPatterns

/-- A project that is searched everywhere below its directory, with the output there. -/
def searchedProject : FileTree :=
  ⟨[([".gqlmodel.yaml"], .file (utf8Bytes "path: \"**/*.graphql\"\noutput: s/b.json\n")),
    (["s"], .directory),
    (["s", "a.graphql"], .file (utf8Bytes "type T @source(name: \"m\") \x7b f: U \x7d"))], []⟩

/-- Orders that differ between a run and the next one. -/
def everyOtherBackwards (count : Nat) : SetOrder := if count % 2 = 0 then .asWritten else backwards

theorem searchedProject_again :
    (rebuilt .bare everyOtherBackwards searchedProject ["introspect"] 0).ending = .code 0 ∧
      rebuilt .bare everyOtherBackwards searchedProject ["introspect"] 2 =
        rebuilt .bare everyOtherBackwards searchedProject ["introspect"] 0 := by
  have hTree : searchedProject.HasNames := by decide
  have hNoSet : projectSet? .bare searchedProject "." = none := by decide +kernel
  have hRead : Request.read ["introspect"] = .task (.introspect "." none false) := by
    decide
  have hProject : projectAt (Platform.bare.ordered (everyOtherBackwards 0)) searchedProject "." =
      .ok (⟨.top, []⟩, ⟨["**/*.graphql"], "utf-8", none, .plain, some "s/b.json"⟩) :=
    eq_ok_of_toOption (by decide +kernel)
  have hEnding : (rebuilt .bare everyOtherBackwards searchedProject ["introspect"] 0).ending =
      .code 0 := Ending.hasCode_iff.mp (by decide +kernel)
  exact ⟨hEnding, run_again hTree (fun _ _ => Config.agreeOn_of_eq_none hNoSet) hRead hProject rfl
    hEnding (by decide +kernel) (by decide +kernel) (by decide +kernel) 2⟩

/-- A project whose patterns are a set of two files, with an output. -/
def setSearch : FileTree :=
  ⟨[([".gqlmodel.yaml"], .file (utf8Bytes
      "path: !!set \x7ba, b\x7d\ndefault-source: m\noutput: c\n")),
    (["a"], .file (utf8Bytes "type A")), (["b"], .file (utf8Bytes "type B"))], []⟩

/-- Rebuilding a project whose patterns are a set ends well but need not leave what the first
run did. -/
theorem setSearch_changes :
    (rebuilt .bare everyOtherBackwards setSearch ["introspect"] 0).ending = .code 0 ∧
      (rebuilt .bare everyOtherBackwards setSearch ["introspect"] 1).ending = .code 0 ∧
      (rebuilt .bare everyOtherBackwards setSearch ["introspect"] 1).tree.at? ["c"] ≠
        (rebuilt .bare everyOtherBackwards setSearch ["introspect"] 0).tree.at? ["c"] := by
  obtain ⟨hFirst, hSecond, hOther⟩ :
      (rebuilt .bare everyOtherBackwards setSearch ["introspect"] 0).ending.hasCode 0 = true ∧
      (rebuilt .bare everyOtherBackwards setSearch ["introspect"] 1).ending.hasCode 0 = true ∧
      (rebuilt .bare everyOtherBackwards setSearch ["introspect"] 1).tree.at? ["c"] ≠
        (rebuilt .bare everyOtherBackwards setSearch ["introspect"] 0).tree.at? ["c"] := by
    decide +kernel
  exact ⟨Ending.hasCode_iff.mp hFirst, Ending.hasCode_iff.mp hSecond, hOther⟩

end SchemaModels.Command
