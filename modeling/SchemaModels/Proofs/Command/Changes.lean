import SchemaModels.Proofs.Command.Agreement
import SchemaModels.Proofs.Files.Changes

/-!
What runs change in a tree. Checking a project changes nothing, and neither does showing
its models where they are printed. Where they are written, a run that fails leaves all
files as they are, and one that ends well writes the one file that is its output. A run
whose last line cannot be printed does neither: it ends badly and has written its output.
-/
namespace SchemaModels.Command

variable {platform : Platform} {tree : FileTree}

/-- The file that the models of a project are written to: the one that is named, or else
the one of the configuration. -/
def projectOutput? (platform : Platform) (tree : FileTree) (directory : String)
    (named : Option String) : Option Path :=
  match projectAt platform tree directory with
  | .ok (_, config) => (named.or config.output).map (outputFile tree directory)
  | .error _ => none

/-- The file that a request asks to write models to. -/
def outputOf? (platform : Platform) (tree : FileTree) : Request → Option Path
  | .task (.introspect directory output _) => projectOutput? platform tree directory output
  | _ => none

/-- A file is written at a path, after the missing directories on its way were made. -/
def Writes (tree after : FileTree) (path : Path) : Prop :=
  ∃ made place content, tree.MakesWay made path.parent ∧ made.locate path.text = .ok place ∧
    made.at? place ≠ some .directory ∧ after = made.put place (.file content)

/-- A task fails: it prints nothing and does not end with code zero. -/
structure Fails (outcome : Outcome) : Prop where
  printed : outcome.printed = []
  ending : outcome.ending ≠ .code 0
  allPrinted : ∀ message, outcome.ending ≠ .unprinted message

theorem fails_failure (tree : FileTree) (errors : List String) (failure : Failure) :
    Fails (.failure tree errors failure) := by
  cases failure with
  | reported error => exact ⟨rfl, by simp [Outcome.failure], by simp [Outcome.failure]⟩
  | broken breakdown => exact ⟨rfl, by simp [Outcome.failure], by simp [Outcome.failure]⟩

section Printing

variable {printer : Printer}

theorem Printer.print_of_takes {lines : List String} (h : ∀ line ∈ lines, printer line = none) :
    printer.print lines = (lines, none) := by
  induction lines with
  | nil => rfl
  | cons line rest ih =>
      obtain ⟨hLine, hRest⟩ := List.forall_mem_cons.mp h
      simp only [Printer.print, hLine, ih hRest]

variable {outcome : Outcome}

theorem printedBy_of_takes (h : ∀ line ∈ outcome.printed, printer line = none) :
    outcome.printedBy printer = outcome := by
  rw [Outcome.printedBy, Printer.print_of_takes h]

theorem Fails.printedBy (h : Fails outcome) : outcome.printedBy printer = outcome :=
  printedBy_of_takes (by simp [h.printed])

theorem printedBy_of_objection {line message : String} (hPrinted : outcome.printed = [line])
    (h : printer line = some message) :
    (outcome.printedBy printer).ending = .unprinted message := by
  simp only [Outcome.printedBy, hPrinted, Printer.print, h]

/-- Printing comes last, so it changes no files. -/
theorem printedBy_tree (outcome : Outcome) (printer : Printer) :
    (outcome.printedBy printer).tree = outcome.tree := by
  unfold Outcome.printedBy
  split <;> rfl

theorem runOn_unlimited (platform : Platform) (tree : FileTree) (arguments : List String) :
    runOn .unlimited platform tree arguments = run platform tree arguments :=
  printedBy_of_takes fun _ _ => rfl

end Printing

theorem projectOutput?_of_projectAt {directory : String} {root : Path} {config : Config}
    (h : projectAt platform tree directory = .ok (root, config)) (named : Option String) :
    projectOutput? platform tree directory named =
      (named.or config.output).map fun target => root.join (Path.ofText target) := by
  have hFile (target : String) :
      outputFile tree directory target = root.join (Path.ofText target) := by
    rw [outputFile, eq_directoryOf_of_projectAt h]
  unfold projectOutput?
  rw [h, ← funext hFile]

/-- The outcome of writing models to a path: it fails on the way there, or it writes a file
and says so. -/
def FailsOrWrites (tree : FileTree) (path : Path) (outcome : Outcome) : Prop :=
  (Fails outcome ∧ tree.MakesWay outcome.tree path.parent) ∨
    (outcome.ending = .code 0 ∧ (∃ count, outcome.printed = [writtenLine count path]) ∧
      Writes tree outcome.tree path)

theorem writeModels_changes (tree : FileTree) (errors : List String) (path : Path)
    (models : List Model) : FailsOrWrites tree path (writeModels tree errors path models) := by
  unfold writeModels
  rcases hSave : Artifact.save tree path models with ⟨left, e | e⟩
  · obtain ⟨made, place, hMade, hPlace, hFree, hLeft⟩ := FileTree.writeBelow_written hSave
    exact .inr ⟨rfl, ⟨_, rfl⟩, made, place, _, hMade, hPlace, hFree, hLeft⟩
  · refine .inl ⟨fails_failure _ _ _, ?_⟩
    rw [failure_tree]
    exact FileTree.writeBelow_failed hSave

/-- A task without an output changes nothing. One with an output fails and makes at most
directories, or it ends well and writes the output. -/
theorem perform_changes (platform : Platform) (tree : FileTree) {task : Task}
    (hTask : ∀ directory, task ≠ .init directory) :
    (outputOf? platform tree (.task task) = none → (perform platform tree task).tree = tree) ∧
    ∀ path, outputOf? platform tree (.task task) = some path →
      FailsOrWrites tree path (perform platform tree task) := by
  cases task with
  | init directory => exact absurd rfl (hTask directory)
  | check directory verbose =>
      have hTree : (perform platform tree (.check directory verbose)).tree = tree := by
        rcases withModels_cases platform tree directory with
          ⟨lines, failure, hRun⟩ | ⟨root, config, lines, models, -, -, hRun⟩
        · rw [perform_check, hRun, failure_tree]
        · rw [perform_check, hRun, Outcome.success]
      exact ⟨fun _ => hTree, fun path hPath => (by cases hPath)⟩
  | introspect directory output verbose =>
      rcases withModels_cases platform tree directory with
        ⟨lines, failure, hRun⟩ | ⟨root, config, lines, models, hProject, -, hRun⟩
      · rw [perform_introspect, hRun]
        refine ⟨fun _ => failure_tree _ _ _, fun path _ => .inl ⟨fails_failure _ _ _, ?_⟩⟩
        rw [failure_tree]
        exact .refl tree _
      · rw [outputOf?, projectOutput?_of_projectAt hProject, perform_introspect, hRun]
        cases output.or config.output with
        | none => exact ⟨fun _ => rfl, fun path hPath => (by cases hPath)⟩
        | some target =>
            refine ⟨fun hNone => (by cases hNone), fun path hPath => ?_⟩
            rw [← Option.some.inj hPath]
            exact writeModels_changes tree _ _ models

/-- Everything but the written file, and the directories on its way, is as before. -/
theorem Writes.unchanged {after : FileTree} {path : Path} (h : Writes tree after path) :
    ∃ place content, after.locate path.text = .ok place ∧
      after.at? place = some (.file content) ∧
      (∀ other, other ≠ place → ∀ content,
        after.at? other = some (.file content) ↔ tree.at? other = some (.file content)) ∧
      (∀ other, tree.at? other = some .directory → after.at? other = some .directory) ∧
      ∀ other, after.at? other = some .directory → tree.at? other = none →
        ∃ above : Path, above.start = path.start ∧ above.parts <+: path.parent.parts ∧
          after.locate above.text = .ok other := by
  obtain ⟨made, place, content, hMade, hPlace, hFree, rfl⟩ := h
  have hSome : place ≠ [] := by
    rintro rfl
    exact hFree rfl
  have hOther {other : List String} (hDirectory : made.at? other = some .directory) :
      place ≠ other := by
    rintro rfl
    exact hFree hDirectory
  refine ⟨place, content, FileTree.locate_put hFree _ hPlace, FileTree.at?_put_self hSome _,
    fun other hNe content => ?_, fun other hAt => ?_, fun other hAt hNone => ?_⟩
  · rw [FileTree.at?_put_of_ne hNe.symm, hMade.file_iff]
  · have hKept := hMade.kept other _ hAt
    rw [FileTree.at?_put_of_ne (hOther hKept), hKept]
  · have hNe : place ≠ other := by
      rintro rfl
      rw [FileTree.at?_put_self hSome] at hAt
      cases hAt
    rw [FileTree.at?_put_of_ne hNe] at hAt
    obtain ⟨-, above, hStart, hParts, hAbove⟩ := hMade.gained other _ hAt hNone
    exact ⟨above, hStart, hParts, FileTree.locate_put hFree _ hAbove⟩

/-- A run without an output changes nothing. One with an output fails on the way there, or it
ends well and writes it. -/
theorem run_failsOrWrites (platform : Platform) (tree : FileTree) {arguments : List String}
    (hTask : ∀ directory, Request.read arguments ≠ .task (.init directory)) :
    (outputOf? platform tree (Request.read arguments) = none ∧
        (run platform tree arguments).tree = tree) ∨
      ∃ path, outputOf? platform tree (Request.read arguments) = some path ∧
        FailsOrWrites tree path (run platform tree arguments) := by
  rw [run]
  cases hRead : Request.read arguments with
  | help scope => exact .inl ⟨rfl, rfl⟩
  | misuse scope error => exact .inl ⟨rfl, rfl⟩
  | task task =>
      have hOther (directory : String) : task ≠ .init directory := by
        rintro rfl
        exact hTask directory hRead
      obtain ⟨hNone, hSome⟩ := perform_changes platform tree hOther
      cases hOutput : outputOf? platform tree (.task task) with
      | none => exact .inl ⟨rfl, hNone hOutput⟩
      | some path => exact .inr ⟨path, rfl, hSome path hOutput⟩

/-- What a printer makes of a run that ends well: it prints the line about the output, or it
objects to the line and the run ends with that. -/
theorem printedBy_written {printer : Printer} {outcome : Outcome} {count : Nat} {path : Path}
    (hEnding : outcome.ending = .code 0) (hPrinted : outcome.printed = [writtenLine count path]) :
    (printer (writtenLine count path) = none ∧
        (outcome.printedBy printer).ending = .code 0) ∨
      ∃ message, printer (writtenLine count path) = some message ∧
        (outcome.printedBy printer).ending = .unprinted message := by
  cases hLine : printer (writtenLine count path) with
  | none =>
      refine .inl ⟨rfl, ?_⟩
      rw [printedBy_of_takes (by simpa [hPrinted] using hLine)]
      exact hEnding
  | some message => exact .inr ⟨message, rfl, printedBy_of_objection hPrinted hLine⟩

/-- A run that does not start a project changes nothing if it has no output, as when it
checks. If it fails, no file is new or changed. If it ends well, the only file that may be is
its output. The same holds if the run ends because a line cannot be printed, which for a run
with an output is the line about it. Directories stay, and the new ones are on the way of the
output. -/
theorem runOn_changes (printer : Printer) (platform : Platform) (tree : FileTree)
    {arguments : List String}
    (hTask : ∀ directory, Request.read arguments ≠ .task (.init directory)) :
    (outputOf? platform tree (Request.read arguments) = none →
      (runOn printer platform tree arguments).tree = tree) ∧
    ((runOn printer platform tree arguments).ending ≠ .code 0 →
      (∀ message, (runOn printer platform tree arguments).ending ≠ .unprinted message) →
      ∀ place content,
        (runOn printer platform tree arguments).tree.at? place = some (.file content) ↔
          tree.at? place = some (.file content)) ∧
    (∀ path, outputOf? platform tree (Request.read arguments) = some path →
      ((runOn printer platform tree arguments).ending = .code 0 ∨
        ∃ message, (runOn printer platform tree arguments).ending = .unprinted message) →
      ∃ place content,
        (runOn printer platform tree arguments).tree.locate path.text = .ok place ∧
        (runOn printer platform tree arguments).tree.at? place = some (.file content) ∧
        ∀ other, other ≠ place → ∀ content,
          (runOn printer platform tree arguments).tree.at? other = some (.file content) ↔
            tree.at? other = some (.file content)) ∧
    (∀ path message, outputOf? platform tree (Request.read arguments) = some path →
      (runOn printer platform tree arguments).ending = .unprinted message →
        ∃ count, printer (writtenLine count path) = some message) ∧
    (∀ place, tree.at? place = some .directory →
      (runOn printer platform tree arguments).tree.at? place = some .directory) ∧
    ∀ place, (runOn printer platform tree arguments).tree.at? place = some .directory →
      tree.at? place = none →
      ∃ path, ∃ above : Path, outputOf? platform tree (Request.read arguments) = some path ∧
        above.start = path.start ∧ above.parts <+: path.parent.parts ∧
        (runOn printer platform tree arguments).tree.locate above.text = .ok place := by
  rw [runOn, printedBy_tree]
  obtain ⟨hOutput, hTree⟩ |
    ⟨path, hOutput, ⟨hFails, hMade⟩ | ⟨hEnding, ⟨count, hPrinted⟩, hWrites⟩⟩ :=
    run_failsOrWrites platform tree hTask
  · rw [hTree, hOutput]
    refine ⟨fun _ => rfl, fun _ _ place content => .rfl, fun _ hPath => (by cases hPath),
      fun _ _ hPath => (by cases hPath), fun place hAt => hAt, fun place hAt hNone => ?_⟩
    rw [hNone] at hAt
    cases hAt
  · rw [hOutput, hFails.printedBy]
    refine ⟨fun hNo => (by cases hNo), fun _ _ => hMade.file_iff, fun _ _ hEnds => ?_,
      fun _ message _ hEnds => absurd hEnds (hFails.allPrinted message),
      fun place => hMade.kept place _, fun place hAt hNone => ?_⟩
    · rcases hEnds with hEnds | ⟨message, hEnds⟩
      · exact absurd hEnds hFails.ending
      · exact absurd hEnds (hFails.allPrinted message)
    · obtain ⟨-, above, hAbove⟩ := hMade.gained place _ hAt hNone
      exact ⟨path, above, rfl, hAbove⟩
  · rw [hOutput]
    obtain ⟨place, content, hPlace, hFile, hOthers, hKept, hMade⟩ := hWrites.unchanged
    refine ⟨fun hNo => (by cases hNo), fun hNo hPrints => ?_, fun _ hPath _ => ?_,
      fun _ message hPath hEnds => ?_, hKept, fun place hAt hNone => ?_⟩
    · rcases printedBy_written hEnding hPrinted with ⟨-, hEnds⟩ | ⟨message, -, hEnds⟩
      · exact absurd hEnds hNo
      · exact absurd hEnds (hPrints message)
    · obtain rfl := Option.some.inj hPath
      exact ⟨place, content, hPlace, hFile, hOthers⟩
    · obtain rfl := Option.some.inj hPath
      rcases printedBy_written hEnding hPrinted with ⟨-, hCode⟩ | ⟨other, hLine, hOther⟩
      · rw [hCode] at hEnds
        cases hEnds
      · rw [hOther] at hEnds
        cases hEnds
        exact ⟨count, hLine⟩
    · obtain ⟨above, hAbove⟩ := hMade place hAt hNone
      exact ⟨path, above, rfl, hAbove⟩

/-- A printer that has bytes for the characters of ASCII and no others. -/
def asciiPrinter : Printer := fun line =>
  if line.toList.all fun c => c.toNat < 128 then none else some "ordinal not in range(128)"

/-- What becomes of three outputs of the small project: one below a new directory, one below
a file, and one whose name has a character that cannot be printed. -/
theorem smallProject_outputs :
    ((runOn asciiPrinter .bare smallProject ["introspect", "-o", "out/b"]).ending.hasCode 0 = true ∧
      outputOf? .bare smallProject (Request.read ["introspect", "-o", "out/b"]) =
        some ⟨.top, ["out", "b"]⟩ ∧
      ((runOn asciiPrinter .bare smallProject
        ["introspect", "-o", "out/b"]).tree.locate "/out/b").toOption = some ["out", "b"]) ∧
    (runOn asciiPrinter .bare smallProject ["introspect", "-o", "a/b"]).ending.hasCode 1 = true ∧
    (run .bare smallProject ["introspect", "-o", "é"]).printed = [writtenLine 1 ⟨.top, ["é"]⟩] ∧
      asciiPrinter (writtenLine 1 ⟨.top, ["é"]⟩) = some "ordinal not in range(128)" ∧
      smallProject.exists? "/é" = false ∧
      (runOn asciiPrinter .bare smallProject ["introspect", "-o", "é"]).tree.isFile "/é" =
        true := by
  decide +kernel

theorem smallProject_changes :
    (∃ content,
      (runOn asciiPrinter .bare smallProject ["introspect", "-o", "out/b"]).tree.at? ["out", "b"] =
        some (.file content) ∧
      ∀ place, place ≠ ["out", "b"] → ∀ content,
        (runOn asciiPrinter .bare smallProject ["introspect", "-o", "out/b"]).tree.at? place =
            some (.file content) ↔
          smallProject.at? place = some (.file content)) ∧
    (runOn asciiPrinter .bare smallProject ["introspect", "-o", "a/b"]).ending = .code 1 ∧
    ∀ place content,
      (runOn asciiPrinter .bare smallProject ["introspect", "-o", "a/b"]).tree.at? place =
          some (.file content) ↔
        smallProject.at? place = some (.file content) := by
  have hWrite : Request.read ["introspect", "-o", "out/b"] =
      .task (.introspect "." (some "out/b") false) := by
    decide
  have hBelow : Request.read ["introspect", "-o", "a/b"] =
      .task (.introspect "." (some "a/b") false) := by
    decide
  obtain ⟨⟨hEnds, hOutput, hPlace⟩, hCode, -⟩ := smallProject_outputs
  have hFails : (runOn asciiPrinter .bare smallProject ["introspect", "-o", "a/b"]).ending =
      .code 1 := Ending.hasCode_iff.mp hCode
  obtain ⟨-, -, hWritten, -⟩ := runOn_changes asciiPrinter .bare smallProject
    fun directory hInit => by rw [hWrite] at hInit; cases hInit
  obtain ⟨-, hKept, -⟩ := runOn_changes asciiPrinter .bare smallProject
    fun directory hInit => by rw [hBelow] at hInit; cases hInit
  obtain ⟨place, content, hLocate, hFile, hOthers⟩ :=
    hWritten _ hOutput (.inl (Ending.hasCode_iff.mp hEnds))
  have hText : Path.text ⟨.top, ["out", "b"]⟩ = "/out/b" := by decide
  rw [hText] at hLocate
  rw [hLocate] at hPlace
  obtain rfl := Option.some.inj hPlace
  exact ⟨⟨content, hFile, hOthers⟩, hFails, hKept (by simp [hFails]) (by simp [hFails])⟩

/-- The output is written although the run does not end well: the line about it holds a
character that the printer has no bytes for. -/
theorem accentedOutput_changes :
    (runOn asciiPrinter .bare smallProject ["introspect", "-o", "é"]).ending =
        .unprinted "ordinal not in range(128)" ∧
      smallProject.exists? "/é" = false ∧
      (runOn asciiPrinter .bare smallProject ["introspect", "-o", "é"]).tree.isFile "/é" =
        true := by
  obtain ⟨-, -, hPrinted, hObjection, hNew, hWritten⟩ := smallProject_outputs
  exact ⟨printedBy_of_objection hPrinted hObjection, hNew, hWritten⟩

end SchemaModels.Command
