import SchemaModels.Proofs.Introspection.Joining
import SchemaModels.Proofs.Introspection.Listing

/-!
How often a run reads a file. It reads what is listed, in order, up to the first
failure. So it reads each place once if no two paths that are listed name one place,
which is so for patterns that begin alike.
-/
namespace SchemaModels

/-- The files of some events. -/
def Event.files (events : List Event) : List Path :=
  events.filterMap fun
    | .file path => some path
    | .model _ => none

theorem Event.files_groups (groups : List FileGroup) :
    Event.files (groups.flatMap FileGroup.events) = groups.map FileGroup.path := by
  have hModels (models : List Model) : Event.files (models.map .model) = [] :=
    List.filterMap_eq_nil_iff.mpr fun event hEvent => by
      obtain ⟨m, -, rfl⟩ := List.mem_map.mp hEvent
      rfl
  induction groups with
  | nil => rfl
  | cons group rest ih =>
      have hGroup : Event.files group.events = [group.path] :=
        congrArg (group.path :: ·) (hModels group.models)
      rw [Event.files, List.flatMap_cons, List.filterMap_append, ← Event.files, ← Event.files,
        hGroup, ih]
      rfl

section Run

variable {codecs : Codecs} {tree : FileTree} {options : RunOptions}

/-- A run reads the files that are listed, in their order, and stops at most early. -/
theorem introspect_files_isPrefix :
    Event.files (introspect tree options codecs).events <+: schemaFiles tree options.patterns := by
  rcases run_cases codecs tree options with
    ⟨e, hNone⟩ | ⟨groups, hGroups, hPaths⟩ |
      ⟨groups, failing, later, e, hGroups, hPaths, hFailing⟩
  · rw [introspect, observedRun_of_unsearchable _ hNone]
    exact List.nil_prefix
  · have hFiles : Event.files (introspect tree options codecs).events =
        schemaFiles tree options.patterns := by
      rw [introspect, observedRun_ok _ hGroups hPaths, Observer.hear_recorder, List.nil_append,
        Event.files_groups, schemaFiles_of_find hPaths]
    exact hFiles ▸ List.prefix_rfl
  · have hEvents : Event.files (groups.flatMap FileGroup.events ++ [.file failing]) =
        groups.map FileGroup.path ++ [failing] := by
      rw [Event.files, List.filterMap_append, ← Event.files, Event.files_groups]
      rfl
    rw [introspect, observedRun_error _ hGroups hPaths hFailing, Observer.hear_recorder,
      List.nil_append, hEvents, schemaFiles_of_find hPaths]
    exact ⟨later, by simp⟩

/-- Each file that is listed gives its models once to a run that succeeds. -/
theorem groups_of_introspect_ok {models : List Model}
    (h : (introspect tree options codecs).outcome = .ok models) :
    ∃ groups, Succeed codecs tree options groups ∧
      schemaFiles tree options.patterns = groups.map FileGroup.path ∧
      models = groups.flatMap FileGroup.models := by
  rcases run_cases codecs tree options with
    ⟨e, hNone⟩ | ⟨groups, hGroups, hPaths⟩ |
      ⟨groups, failing, later, e, hGroups, hPaths, hFailing⟩
  · rw [introspect, observedRun_of_unsearchable _ hNone] at h
    cases h
  · rw [introspect, observedRun_ok _ hGroups hPaths] at h
    exact ⟨groups, hGroups, schemaFiles_of_find hPaths, (Except.ok.inj h).symm⟩
  · rw [introspect, observedRun_error _ hGroups hPaths hFailing] at h
    cases h

/-- Patterns that begin alike list each place once. -/
theorem places_nodup (hTree : tree.HasNames) {patterns : List String} {start : PathStart}
    {up : Nat} (h : ∀ pattern ∈ patterns, BeginsWith start up (Path.ofText pattern)) :
    ((schemaFiles tree patterns).map fun path => tree.locate path.text).Nodup := by
  refine List.Nodup.map_on ?_ schemaFiles_nodup
  intro path hPath other hOther hSame
  have hBegins {path : Path} (hPath : path ∈ schemaFiles tree patterns) :
      BeginsWith start up path := by
    obtain ⟨-, -, pattern, hPattern, hStands⟩ := (mem_schemaFiles_iff_standsFor hTree).mp hPath
    exact (h pattern hPattern).of_standsFor hStands
  obtain ⟨place, content, hLeads, hLocate, -⟩ := exists_place_of_mem_schemaFiles hPath
  obtain ⟨there, found, hLeadsOther, hLocateOther, -⟩ := exists_place_of_mem_schemaFiles hOther
  obtain rfl := Except.ok.inj (hLocate.symm.trans (hSame.trans hLocateOther))
  exact (hBegins hPath).eq_of_place (hBegins hOther) (isNormal_of_mem_schemaFiles hPath)
    (isNormal_of_mem_schemaFiles hOther) hLeads hLeadsOther

end Run

/-- All that is listed is a file, and no path is listed twice. Two paths that are
listed name one file exactly if they are the same once the parts that go up are taken
together with those they leave. If all patterns start in the same way, go up equally
often at first and go up nowhere else, then every file is listed once, a run reads it
at most once, and it gives its models once to a run that succeeds. -/
theorem schemaFiles_places (codecs : Codecs) (tree : FileTree) (hTree : tree.HasNames)
    (options : RunOptions) :
    (∀ path ∈ schemaFiles tree options.patterns, ∃ place content,
      tree.locate path.text = .ok place ∧ tree.at? place = some (.file content)) ∧
    (schemaFiles tree options.patterns).Nodup ∧
    (∀ path ∈ schemaFiles tree options.patterns, ∀ other ∈ schemaFiles tree options.patterns,
      (tree.locate path.text = tree.locate other.text ↔
        Path.resolve tree.working path = Path.resolve tree.working other)) ∧
    Event.files (introspect tree options codecs).events <+: schemaFiles tree options.patterns ∧
    (∀ models, (introspect tree options codecs).outcome = .ok models →
      ∃ groups, Succeed codecs tree options groups ∧
        schemaFiles tree options.patterns = groups.map FileGroup.path ∧
        models = groups.flatMap FileGroup.models) ∧
    ∀ start up,
      (∀ pattern ∈ options.patterns, BeginsWith start up (Path.ofText pattern)) →
      ((schemaFiles tree options.patterns).map fun path => tree.locate path.text).Nodup ∧
        ((Event.files (introspect tree options codecs).events).map
          fun path => tree.locate path.text).Nodup := by
  refine ⟨?_, schemaFiles_nodup, ?_, introspect_files_isPrefix,
    fun models => groups_of_introspect_ok, ?_⟩
  · intro path hPath
    obtain ⟨place, content, -, hLocate, hAt⟩ := exists_place_of_mem_schemaFiles hPath
    exact ⟨place, content, hLocate, hAt⟩
  · intro path hPath other hOther
    exact locate_eq_iff_resolve_eq hTree hPath hOther
  · intro start up hBegins
    have hPlaces := places_nodup hTree hBegins
    exact ⟨hPlaces, hPlaces.sublist (introspect_files_isPrefix.sublist.map _)⟩

/-- A file beside a directory. -/
def besideDirectory : FileTree :=
  ⟨[(["sub"], .directory), (["a.graphql"], .file (utf8Bytes "type T"))], []⟩

theorem besideDirectory_hasNames : besideDirectory.HasNames := by decide

/-- Two patterns for one file that begin alike. -/
theorem besideDirectory_once :
    (∀ pattern ∈ ["a.graphql", "*.graphql"],
      BeginsWith .relative 0 (Path.ofText pattern)) ∧
    ((schemaFiles besideDirectory ["a.graphql", "*.graphql"]).map
      fun path => besideDirectory.locate path.text).Nodup := by
  have hBegins : ∀ pattern ∈ ["a.graphql", "*.graphql"],
      BeginsWith .relative 0 (Path.ofText pattern) := by
    intro pattern hPattern
    rcases List.mem_cons.mp hPattern with rfl | hPattern
    · exact ⟨by decide, ["a.graphql"], by decide, by decide⟩
    · obtain rfl := List.mem_singleton.mp hPattern
      exact ⟨by decide, ["*.graphql"], by decide, by decide⟩
  have hPlaces := schemaFiles_places .bare besideDirectory besideDirectory_hasNames
    ⟨["a.graphql", "*.graphql"], "utf-8", some "main", .plain⟩
  exact ⟨hBegins, (hPlaces.2.2.2.2.2 .relative 0 hBegins).1⟩

/-- A pattern that goes up again lists a file once more, which then gives its models
twice. -/
theorem besideDirectory_twice :
    schemaFiles besideDirectory ["a.graphql", "sub/../a.graphql"] =
        [Path.ofText "a.graphql", Path.ofText "sub/../a.graphql"] ∧
      besideDirectory.locate (Path.ofText "a.graphql").text = .ok ["a.graphql"] ∧
      besideDirectory.locate (Path.ofText "sub/../a.graphql").text = .ok ["a.graphql"] ∧
      (introspect besideDirectory
          ⟨["a.graphql", "sub/../a.graphql"], "utf-8", some "main", .plain⟩ .bare).outcome =
        .ok [⟨"T", "main", [], []⟩, ⟨"T", "main", [], []⟩] := by
  have hPaths : schemaFiles besideDirectory ["a.graphql", "sub/../a.graphql"] =
      [Path.ofText "a.graphql", Path.ofText "sub/../a.graphql"] := by
    with_unfolding_all decide
  have hRead : besideDirectory.read (.ofText "a.graphql") = .ok (utf8Bytes "type T") ∧
      besideDirectory.read (.ofText "sub/../a.graphql") = .ok (utf8Bytes "type T") := by
    with_unfolding_all decide
  have hFile {path : Path} (hContent : besideDirectory.read path = .ok (utf8Bytes "type T")) :
      introspectFile besideDirectory
        ⟨["a.graphql", "sub/../a.graphql"], "utf-8", some "main", .plain⟩ path .bare =
          .ok [⟨"T", "main", [], []⟩] :=
    introspectFile_eq_ok_iff.mpr ⟨_, by
      dsimp only
      rw [Codecs.bare, decoder_utf8]
      exact FileTree.readText_of_read (by decide) hContent, by cbv⟩
  have hFiles : Succeed .bare besideDirectory
      ⟨["a.graphql", "sub/../a.graphql"], "utf-8", some "main", .plain⟩
      [⟨.ofText "a.graphql", [⟨"T", "main", [], []⟩]⟩,
        ⟨.ofText "sub/../a.graphql", [⟨"T", "main", [], []⟩]⟩] :=
    List.forall_mem_cons.mpr ⟨hFile hRead.1, List.forall_mem_singleton.mpr (hFile hRead.2)⟩
  refine ⟨hPaths, by with_unfolding_all decide, by with_unfolding_all decide, ?_⟩
  have hFound : findSchemaFiles besideDirectory ["a.graphql", "sub/../a.graphql"] =
      .ok [Path.ofText "a.graphql", Path.ofText "sub/../a.graphql"] := by
    rw [findSchemaFiles, hPaths]
    rfl
  rw [introspect, observedRun_ok _ hFiles hFound]
  rfl

end SchemaModels
