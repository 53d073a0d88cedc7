import SchemaModels.Proofs.Files.Expansion
import SchemaModels.Proofs.Introspection.Trace

/-!
Which files are listed, and how often. No path is listed twice, but one file can be:
a path keeps the parts that go up and the place where it starts, so one file has many
paths. Patterns that begin alike and go up nowhere else have no two paths for a file.
-/
namespace SchemaModels

open SchemaModels.Path (EndsInPart)

section Listed

variable {tree : FileTree} {patterns : List String} {path : Path} {find : Glob.Finder}

/-- Patterns that can be searched for give the files that are listed. -/
theorem schemaFiles_of_find {paths : List Path}
    (h : findSchemaFiles tree patterns = .ok paths) : schemaFiles tree patterns = paths := by
  unfold findSchemaFiles at h
  split at h
  · cases h
  · exact Except.ok.inj h

theorem mem_addFiles_iff {listed paths : List Path} :
    path ∈ addFiles tree listed paths ↔
      path ∈ listed ∨ path ∈ paths ∧ tree.isFile path.text = true := by
  induction paths generalizing listed with
  | nil => simp [addFiles]
  | cons next rest ih =>
      rw [addFiles]
      split
      · rename_i hNew
        rw [Bool.and_eq_true] at hNew
        rw [ih, List.mem_append, List.mem_singleton, List.mem_cons]
        constructor
        · rintro ((hListed | rfl) | ⟨hRest, hFile⟩)
          · exact .inl hListed
          · exact .inr ⟨.inl rfl, hNew.1⟩
          · exact .inr ⟨.inr hRest, hFile⟩
        · rintro (hListed | ⟨rfl | hRest, hFile⟩)
          · exact .inl (.inl hListed)
          · exact .inl (.inr rfl)
          · exact .inr ⟨hRest, hFile⟩
      · rename_i hOld
        rw [ih, List.mem_cons]
        constructor
        · exact Or.imp_right fun h => ⟨.inr h.1, h.2⟩
        · rintro (hListed | ⟨rfl | hRest, hFile⟩)
          · exact .inl hListed
          · refine .inl ?_
            by_contra hMissing
            exact hOld (by simp [hFile, hMissing])
          · exact .inr ⟨hRest, hFile⟩

theorem addFiles_nodup {listed : List Path} (h : listed.Nodup) (paths : List Path) :
    (addFiles tree listed paths).Nodup := by
  induction paths generalizing listed with
  | nil => exact h
  | cons next rest ih =>
      rw [addFiles]
      split
      · rename_i hNew
        refine ih (List.nodup_append.mpr ⟨h, List.nodup_singleton next, ?_⟩)
        rintro path hPath _ hNext rfl
        obtain rfl := List.mem_singleton.mp hNext
        simp [hPath] at hNew
      · exact ih h

theorem addFiles_append (tree : FileTree) (listed paths others : List Path) :
    addFiles tree listed (paths ++ others) = addFiles tree (addFiles tree listed paths) others := by
  induction paths generalizing listed with
  | nil => rfl
  | cons next rest ih =>
      rw [List.cons_append, addFiles, addFiles]
      split
      · exact ih _
      · exact ih listed

/-- Patterns behind others list what they select behind what is listed. -/
theorem foldl_addFiles (tree : FileTree) (find : Glob.Finder) (patterns : List String)
    (listed : List Path) :
    patterns.foldl (fun listed pattern => addFiles tree listed (expansion tree pattern find))
        listed =
      addFiles tree listed (patterns.flatMap (expansion tree · find)) := by
  induction patterns generalizing listed with
  | nil => rfl
  | cons pattern rest ih => rw [List.foldl_cons, ih, List.flatMap_cons, addFiles_append]

/-- The files that are listed are those that some pattern selects. -/
theorem mem_schemaFiles_iff : path ∈ schemaFiles tree patterns find ↔
    tree.isFile path.text = true ∧ ∃ pattern ∈ patterns, path ∈ expansion tree pattern find := by
  rw [schemaFiles, foldl_addFiles, mem_addFiles_iff, List.mem_flatMap]
  simp [and_comm]

theorem schemaFiles_nodup : (schemaFiles tree patterns find).Nodup := by
  rw [schemaFiles, foldl_addFiles]
  exact addFiles_nodup List.nodup_nil _

theorem isNormal_of_mem_expansion {pattern : String} (h : path ∈ expansion tree pattern) :
    path.IsNormal := by
  obtain ⟨text, -, rfl⟩ := Glob.mem_expansion_iff_expand.mp h
  exact Path.isNormal_ofText text

theorem isNormal_of_mem_schemaFiles (h : path ∈ schemaFiles tree patterns) : path.IsNormal := by
  obtain ⟨-, pattern, -, hPath⟩ := mem_schemaFiles_iff.mp h
  exact isNormal_of_mem_expansion hPath

/-- A pattern that does not ask for a directory stands for a path that starts where it
does. -/
def StandsFor (pattern : String) (path : Path) : Prop :=
  path.start = (Path.ofText pattern).start ∧ EndsInPart pattern.toList ∧
    Glob.Matches (Glob.steps pattern) path.parts

/-- The files that are listed are those that are there and that some pattern stands
for. -/
theorem mem_schemaFiles_iff_standsFor (hTree : tree.HasNames) :
    path ∈ schemaFiles tree patterns ↔ path.IsNormal ∧ tree.isFile path.text = true ∧
      ∃ pattern ∈ patterns, StandsFor pattern path := by
  constructor
  · intro h
    have hNormal := isNormal_of_mem_schemaFiles h
    obtain ⟨hFile, pattern, hPattern, hPath⟩ := mem_schemaFiles_iff.mp h
    exact ⟨hNormal, hFile, pattern, hPattern,
      (Glob.mem_expansion_iff hTree hNormal hFile).mp hPath⟩
  · rintro ⟨hNormal, hFile, pattern, hPattern, hStands⟩
    exact mem_schemaFiles_iff.mpr ⟨hFile, pattern, hPattern,
      (Glob.mem_expansion_iff hTree hNormal hFile).mpr hStands⟩

/-- The place of a path that is listed is a file. -/
theorem exists_place_of_mem_schemaFiles (h : path ∈ schemaFiles tree patterns) :
    ∃ place content, tree.LeadsTo path place (.file content) ∧
      tree.locate path.text = .ok place ∧ tree.at? place = some (.file content) :=
  FileTree.exists_place_of_isFile (isNormal_of_mem_schemaFiles h) (mem_schemaFiles_iff.mp h).1

/-- Two paths that are listed name one place exactly if they are the same once the
parts that go up are taken together with those they leave. -/
theorem locate_eq_iff_resolve_eq (hTree : tree.HasNames) {other : Path}
    (h : path ∈ schemaFiles tree patterns) (hOther : other ∈ schemaFiles tree patterns) :
    tree.locate path.text = tree.locate other.text ↔
      Path.resolve tree.working path = Path.resolve tree.working other := by
  obtain ⟨place, content, hLeads, hLocate, -⟩ := exists_place_of_mem_schemaFiles h
  obtain ⟨there, found, hLeadsOther, hLocateOther, -⟩ := exists_place_of_mem_schemaFiles hOther
  have hPlace := hLeads.place_eq hTree (isNormal_of_mem_schemaFiles h)
  have hThere := hLeadsOther.place_eq hTree (isNormal_of_mem_schemaFiles hOther)
  rw [hLocate, hLocateOther, Except.ok.injEq, hPlace, hThere]
  constructor
  · exact fun hParts => congrArg (Path.mk .top) hParts
  · exact fun hSame => congrArg Path.parts hSame

end Listed

/-! Patterns that begin alike. -/

/-- A path starts in a certain way, goes up a number of times, and goes up nowhere
else. -/
def BeginsWith (start : PathStart) (up : Nat) (path : Path) : Prop :=
  path.start = start ∧
    ∃ names, path.parts = List.replicate up ".." ++ names ∧ ".." ∉ names

theorem takes_name {name : String} (hName : Path.IsPart name) (hUp : name ≠ "..")
    {taken : List String} (h : (Glob.Segment.ofName name).Takes taken) : ".." ∉ taken := by
  cases hSegment : Glob.Segment.ofName name with
  | close => exact absurd (Glob.ofName_eq_close_iff.mp hSegment) hName.ne_empty
  | plain other =>
      rw [Glob.Segment.ofName] at hSegment
      split_ifs at hSegment with hEmpty hDeep hWild
      obtain rfl := Glob.Segment.plain.inj hSegment
      rw [Glob.takes_plain hName.ne_empty (by simpa using hWild)] at h
      simpa [h] using Ne.symm hUp
  | wild pattern =>
      rw [hSegment] at h
      obtain ⟨other, rfl, hOther, -⟩ := h
      simpa using Ne.symm hOther.ne_up
  | deep =>
      rw [hSegment] at h
      exact fun hMember => (h _ hMember).1.ne_up rfl

theorem up_not_mem_of_matches {names parts : List String}
    (hNames : ∀ name ∈ names, Path.IsPart name) (hUp : ".." ∉ names)
    (h : Glob.Matches (names.map Glob.Segment.ofName) parts) : ".." ∉ parts := by
  induction names generalizing parts with
  | nil =>
      obtain rfl : parts = [] := h
      exact List.not_mem_nil
  | cons name rest ih =>
      obtain ⟨taken, left, rfl, hTaken, hLeft, -⟩ := h
      rw [List.mem_cons, not_or] at hUp
      obtain ⟨hName, hRest⟩ := List.forall_mem_cons.mp hNames
      rw [List.mem_append, not_or]
      exact ⟨takes_name hName (Ne.symm hUp.1) hTaken, ih hRest hUp.2 hLeft⟩

/-- A pattern stands for paths that begin as it does. -/
theorem BeginsWith.of_standsFor {start : PathStart} {up : Nat} {pattern : String} {path : Path}
    (h : BeginsWith start up (Path.ofText pattern)) (hStands : StandsFor pattern path) :
    BeginsWith start up path := by
  obtain ⟨hStart, names, hParts, hUp⟩ := h
  obtain ⟨hSame, -, hMatches⟩ := hStands
  have hPlain : ∀ name ∈ List.replicate up "..", ∀ taken,
      (Glob.Segment.ofName name).Takes taken ↔ taken = [name] := by
    intro name hName
    rw [List.eq_of_mem_replicate hName]
    exact Glob.takes_plain (by decide) (by decide)
  have hNames : ∀ name ∈ names, Path.IsPart name := fun name hName =>
    Path.isNormal_ofText pattern name (hParts ▸ List.mem_append_right _ hName)
  have hSteps : Glob.steps pattern = (List.replicate up "..").map Glob.Segment.ofName ++
      names.map Glob.Segment.ofName := by
    rw [← List.map_append]
    exact congrArg _ hParts
  rw [hSteps, Glob.matches_append_iff hPlain] at hMatches
  obtain ⟨left, hLeft, hMatches⟩ := hMatches
  exact ⟨hSame.trans hStart, left, hLeft, up_not_mem_of_matches hNames hUp hMatches⟩

/-- Paths that begin alike and name one place are the same. -/
theorem BeginsWith.eq_of_place {tree : FileTree} {start : PathStart} {up : Nat}
    {path other : Path} (h : BeginsWith start up path) (hOther : BeginsWith start up other)
    (hNormal : path.IsNormal) (hOtherNormal : other.IsNormal) {place : List String}
    {entry found : Entry} (hLeads : tree.LeadsTo path place entry)
    (hLeadsOther : tree.LeadsTo other place found) : path = other := by
  have hPlace {path : Path} {entry : Entry} (h : BeginsWith start up path)
      (hNormal : path.IsNormal) (hLeads : tree.LeadsTo path place entry) :
      path.start = start ∧ ∃ names, path.parts = List.replicate up ".." ++ names ∧
        place = (List.replicate up "..").foldl FileTree.step (tree.base start) ++ names := by
    obtain ⟨rfl, names, hParts, hUp⟩ := h
    have hNames : ∀ name ∈ names, Path.IsName name := fun name hName =>
      ⟨hNormal name (hParts ▸ List.mem_append_right _ hName), fun hSame => hUp (hSame ▸ hName)⟩
    refine ⟨rfl, names, hParts, ?_⟩
    rw [FileTree.Reaches.target_eq hLeads, hParts, List.foldl_append,
      FileTree.foldl_step_names hNames]
  obtain ⟨hStart, names, hParts, hNames⟩ := hPlace h hNormal hLeads
  obtain ⟨hStartOther, others, hPartsOther, hOthers⟩ := hPlace hOther hOtherNormal hLeadsOther
  obtain rfl := List.append_cancel_left (hNames.symm.trans hOthers)
  cases path
  cases other
  simp only at hStart hStartOther hParts hPartsOther
  rw [hStart, hStartOther, hParts, hPartsOther]

end SchemaModels
