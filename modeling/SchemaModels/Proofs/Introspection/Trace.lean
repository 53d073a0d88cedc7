import SchemaModels.Introspection.Run
import SchemaModels.Proofs.Build.Outcome

/-!
What a run reports, and in which order. A file that succeeds gives a group of
events, the file and then its models; the first file that fails gives only its
own event and ends the run.
-/
namespace SchemaModels

namespace Observer

variable {σ : Type}

/-- What an observer holds after one more event. -/
def tell (observer : Observer σ) (held : σ) : Event → σ
  | .file path => observer.file held path
  | .model m => observer.model held m

/-- What an observer, if there is one, holds after some events. -/
def hear (observer : Option (Observer σ)) (held : σ) (events : List Event) : σ :=
  match observer with
  | none => held
  | some o => events.foldl o.tell held

variable (observer : Option (Observer σ)) (held : σ)

@[simp] theorem hear_nil : hear observer held [] = held := by
  cases observer with
  | none => rfl
  | some o => rfl

@[simp] theorem hear_append (before after : List Event) :
    hear observer held (before ++ after) = hear observer (hear observer held before) after := by
  cases observer with
  | none => rfl
  | some o => exact List.foldl_append

theorem hear_file (path : Path) :
    hear observer held [.file path] = tellFile observer held path := by
  cases observer with
  | none => rfl
  | some o => rfl

theorem hear_models (models : List Model) :
    hear observer held (models.map .model) = tellModels observer held models := by
  cases observer with
  | none => rfl
  | some o => exact List.foldl_map

/-- The recorder keeps what it hears. -/
theorem hear_recorder (held events : List Event) :
    hear (some recorder) held events = held ++ events := by
  change events.foldl recorder.tell held = held ++ events
  induction events generalizing held with
  | nil => simp
  | cons event rest ih =>
      have hTell : recorder.tell held event = held ++ [event] := by cases event <;> rfl
      rw [List.foldl_cons, hTell, ih, List.append_assoc]
      rfl

end Observer

open Observer (hear)

/-- A file and the models that were built from it. -/
structure FileGroup where
  path : Path
  models : List Model

/-- The file, and then its models. -/
def FileGroup.events (group : FileGroup) : List Event :=
  .file group.path :: group.models.map .model

/-- Files that succeed on their own, with their models. -/
def Succeed (codecs : Codecs) (tree : FileTree) (options : RunOptions)
    (groups : List FileGroup) : Prop :=
  ∀ group ∈ groups, introspectFile tree options group.path codecs = .ok group.models

section

variable {σ : Type} (observer : Option (Observer σ)) {codecs : Codecs} {tree : FileTree}
  {options : RunOptions}

/-- An observer changes nothing about a text, and hears only of its models. -/
theorem observedText_eq (building : Build.Options) (label content : String) (held : σ) :
    observedText observer building label content held =
      match introspectText building label content with
      | .ok models => (.ok models, hear observer held (models.map .model))
      | .error e => (.error e, held) := by
  unfold introspectText observedText
  cases Graphql.Document.parse content with
  | error e => rfl
  | ok document =>
      cases h : Build.document building document with
      | ok models =>
          simp only [Build.observedDocument_ok _ building h, Observer.hear_models]
      | error e => simp only [Build.observedDocument_error _ building h]

theorem observedFile_eq (path : Path) (held : σ) :
    observedFile observer tree options path held codecs =
      match introspectFile tree options path codecs with
      | .ok models => (.ok models, hear observer held (models.map .model))
      | .error e => (.error e, held) := by
  unfold introspectFile observedFile
  cases tree.readText path (codecs.decoder options.encoding) with
  | error e => rfl
  | ok content =>
      simp only [observedText_eq]
      cases introspectText options.building path.text content with
      | ok models => rfl
      | error e => rfl

/-- One file of a run that succeeds. -/
theorem observedFiles_ok {path : Path} {models : List Model}
    (h : introspectFile tree options path codecs = .ok models) (rest : List Path)
    (output : List Model) (held : σ) :
    observedFiles observer tree options (path :: rest) output held codecs =
      observedFiles observer tree options rest (output ++ models)
        (hear observer held (FileGroup.mk path models).events) codecs := by
  have hEvents : (FileGroup.mk path models).events = [.file path] ++ models.map .model := rfl
  rw [observedFiles, observedFile_eq, h, hEvents, Observer.hear_append, Observer.hear_file]

/-- One file of a run that fails. -/
theorem observedFiles_error {path : Path} {e : IntrospectionFailure}
    (h : introspectFile tree options path codecs = .error e) (rest : List Path)
    (output : List Model) (held : σ) :
    observedFiles observer tree options (path :: rest) output held codecs =
      (.error e, hear observer held [.file path]) := by
  rw [observedFiles, observedFile_eq, h, Observer.hear_file]

/-- Files that succeed come before all others. -/
theorem observedFiles_append {groups : List FileGroup} (h : Succeed codecs tree options groups)
    (rest : List Path) (output : List Model) (held : σ) :
    observedFiles observer tree options (groups.map FileGroup.path ++ rest) output held codecs =
      observedFiles observer tree options rest (output ++ groups.flatMap FileGroup.models)
        (hear observer held (groups.flatMap FileGroup.events)) codecs := by
  induction groups generalizing output held with
  | nil => simp
  | cons group groups ih =>
      have hFirst := h group (List.mem_cons_self ..)
      have hRest : Succeed codecs tree options groups := fun g hg => h g (List.mem_cons_of_mem _ hg)
      rw [List.map_cons, List.cons_append, observedFiles_ok observer hFirst, ih hRest,
        List.flatMap_cons, List.flatMap_cons, List.append_assoc, Observer.hear_append]

/-- Either all files succeed, or there is a first one that fails. -/
theorem succeed_or_first_failure (codecs : Codecs) (tree : FileTree) (options : RunOptions)
    (paths : List Path) :
    (∃ groups, Succeed codecs tree options groups ∧ paths = groups.map FileGroup.path) ∨
      ∃ groups failing rest e, Succeed codecs tree options groups ∧
        paths = groups.map FileGroup.path ++ failing :: rest ∧
        introspectFile tree options failing codecs = .error e := by
  induction paths with
  | nil => exact Or.inl ⟨[], by simp [Succeed], rfl⟩
  | cons path paths ih =>
      cases h : introspectFile tree options path codecs with
      | error e => exact Or.inr ⟨[], path, paths, e, by simp [Succeed], rfl, h⟩
      | ok models =>
          have hCons {groups : List FileGroup} (hGroups : Succeed codecs tree options groups) :
              Succeed codecs tree options (⟨path, models⟩ :: groups) :=
            List.forall_mem_cons.mpr ⟨h, hGroups⟩
          rcases ih with ⟨groups, hGroups, rfl⟩ | ⟨groups, failing, rest, e, hGroups, rfl, hFailing⟩
          · exact Or.inl ⟨⟨path, models⟩ :: groups, hCons hGroups, rfl⟩
          · exact Or.inr ⟨⟨path, models⟩ :: groups, failing, rest, e, hCons hGroups, rfl, hFailing⟩

/-- Only the text of a file decides what becomes of it. -/
theorem introspectFile_congr {other : FileTree} {path : Path}
    (h : other.readText path (codecs.decoder options.encoding) =
      tree.readText path (codecs.decoder options.encoding)) :
    introspectFile other options path codecs = introspectFile tree options path codecs := by
  rw [introspectFile, introspectFile, observedFile, observedFile, h]

/-- Patterns that cannot be searched for end a run before it has begun. -/
theorem observedRun_of_unsearchable {e : FileError}
    (h : findSchemaFiles tree options.patterns = .error e) (held : σ) :
    observedRun observer tree options held codecs = (.error (.file e), held) := by
  rw [observedRun, h]

theorem observedRun_ok {groups : List FileGroup} (hGroups : Succeed codecs tree options groups)
    (hPaths : findSchemaFiles tree options.patterns = .ok (groups.map FileGroup.path)) (held : σ) :
    observedRun observer tree options held codecs =
      (.ok (groups.flatMap FileGroup.models),
        hear observer held (groups.flatMap FileGroup.events)) := by
  rw [observedRun, hPaths, ← List.append_nil (groups.map _)]
  dsimp only
  rw [observedFiles_append _ hGroups, observedFiles, List.nil_append]

theorem observedRun_error {groups : List FileGroup} {failing : Path} {later : List Path}
    {e : IntrospectionFailure} (hGroups : Succeed codecs tree options groups)
    (hPaths : findSchemaFiles tree options.patterns =
      .ok (groups.map FileGroup.path ++ failing :: later))
    (hFailing : introspectFile tree options failing codecs = .error e) (held : σ) :
    observedRun observer tree options held codecs =
      (.error e, hear observer held (groups.flatMap FileGroup.events ++ [.file failing])) := by
  rw [observedRun, hPaths]
  dsimp only
  rw [observedFiles_append _ hGroups, observedFiles_error _ hFailing, Observer.hear_append]

/-- What a run comes to: its patterns cannot be searched for, or all of its files succeed, or
there is a first one that fails. -/
theorem run_cases (codecs : Codecs) (tree : FileTree) (options : RunOptions) :
    (∃ e, findSchemaFiles tree options.patterns = .error e) ∨
    (∃ groups, Succeed codecs tree options groups ∧
      findSchemaFiles tree options.patterns = .ok (groups.map FileGroup.path)) ∨
    ∃ groups failing later e, Succeed codecs tree options groups ∧
      findSchemaFiles tree options.patterns =
        .ok (groups.map FileGroup.path ++ failing :: later) ∧
      introspectFile tree options failing codecs = .error e := by
  cases hFiles : findSchemaFiles tree options.patterns with
  | error e => exact .inl ⟨e, rfl⟩
  | ok paths =>
      rcases succeed_or_first_failure codecs tree options paths with
        ⟨groups, hGroups, rfl⟩ | ⟨groups, failing, later, e, hGroups, rfl, hFailing⟩
      · exact .inr (.inl ⟨groups, hGroups, rfl⟩)
      · exact .inr (.inr ⟨groups, failing, later, e, hGroups, rfl, hFailing⟩)

/-- The result of a run does not depend on who observes it. -/
theorem observedRun_fst {τ : Type} (another : Option (Observer τ)) (tree : FileTree)
    (options : RunOptions) (held : σ) (start : τ) :
    (observedRun another tree options start codecs).1 =
      (observedRun observer tree options held codecs).1 := by
  rcases run_cases codecs tree options with
    ⟨e, hFiles⟩ | ⟨groups, hGroups, hPaths⟩ |
      ⟨groups, failing, later, e, hGroups, hPaths, hFailing⟩
  · rw [observedRun_of_unsearchable _ hFiles, observedRun_of_unsearchable _ hFiles]
  · rw [observedRun_ok _ hGroups hPaths, observedRun_ok _ hGroups hPaths]
  · rw [observedRun_error _ hGroups hPaths hFailing, observedRun_error _ hGroups hPaths hFailing]

/-- With whichever codecs, of a run either all files succeed, and the models and events of
each come in the order of the files, or there is a first file that fails: then its failure is
the result, its own event is the last one, and nothing of later files matters. Only where the
patterns cannot be searched for there are no files at all, and no events. No observer changes
the result. -/
theorem run_trace (codecs : Codecs) (tree : FileTree) (options : RunOptions) (held : σ) :
    (∀ groups, Succeed codecs tree options groups →
      findSchemaFiles tree options.patterns = .ok (groups.map FileGroup.path) →
      observedRun observer tree options held codecs =
          (.ok (groups.flatMap FileGroup.models),
            hear observer held (groups.flatMap FileGroup.events)) ∧
        introspect tree options codecs =
          ⟨groups.flatMap FileGroup.events, .ok (groups.flatMap FileGroup.models)⟩) ∧
    (∀ groups failing later e, Succeed codecs tree options groups →
      findSchemaFiles tree options.patterns =
        .ok (groups.map FileGroup.path ++ failing :: later) →
      introspectFile tree options failing codecs = .error e →
      observedRun observer tree options held codecs =
          (.error e, hear observer held (groups.flatMap FileGroup.events ++ [.file failing])) ∧
        introspect tree options codecs =
          ⟨groups.flatMap FileGroup.events ++ [.file failing], .error e⟩ ∧
        ∀ (other : FileTree) (others : List Path),
          findSchemaFiles other options.patterns =
            .ok (groups.map FileGroup.path ++ failing :: others) →
          (∀ path ∈ groups.map FileGroup.path ++ [failing],
            other.readText path (codecs.decoder options.encoding) =
              tree.readText path (codecs.decoder options.encoding)) →
          observedRun observer other options held codecs =
            observedRun observer tree options held codecs) ∧
    (∀ e, findSchemaFiles tree options.patterns = .error e →
      observedRun observer tree options held codecs = (.error (.file e), held) ∧
        introspect tree options codecs = ⟨[], .error (.file e)⟩) ∧
    ((∃ e, findSchemaFiles tree options.patterns = .error e) ∨
      (∃ groups, Succeed codecs tree options groups ∧
        findSchemaFiles tree options.patterns = .ok (groups.map FileGroup.path)) ∨
      ∃ groups failing later e, Succeed codecs tree options groups ∧
        findSchemaFiles tree options.patterns =
          .ok (groups.map FileGroup.path ++ failing :: later) ∧
        introspectFile tree options failing codecs = .error e) ∧
    (∀ (τ : Type) (another : Option (Observer τ)) (start : τ),
      (observedRun another tree options start codecs).1 =
        (observedRun observer tree options held codecs).1) := by
  refine ⟨fun groups hGroups hPaths => ⟨observedRun_ok observer hGroups hPaths held, ?_⟩,
    fun groups failing later e hGroups hPaths hFailing =>
      ⟨observedRun_error observer hGroups hPaths hFailing held, ?_, ?_⟩,
    fun e hFiles => ⟨observedRun_of_unsearchable observer hFiles held, ?_⟩,
    run_cases codecs tree options,
    fun τ another start => observedRun_fst observer another tree options held start⟩
  · rw [introspect, observedRun_ok _ hGroups hPaths, Observer.hear_recorder, List.nil_append]
  · rw [introspect, observedRun_error _ hGroups hPaths hFailing, Observer.hear_recorder,
      List.nil_append]
  · intro other others hOthers hSame
    have hOther : Succeed codecs other options groups := by
      intro group hGroup
      have hMem : group.path ∈ groups.map FileGroup.path ++ [failing] :=
        List.mem_append_left _ (List.mem_map_of_mem hGroup)
      rw [introspectFile_congr (hSame _ hMem)]
      exact hGroups group hGroup
    have hFailingOther : introspectFile other options failing codecs = .error e := by
      rw [introspectFile_congr (hSame failing (by simp))]
      exact hFailing
    rw [observedRun_error observer hGroups hPaths hFailing,
      observedRun_error observer hOther hOthers hFailingOther]
  · rw [introspect, observedRun_of_unsearchable _ hFiles]

end
end SchemaModels
