import SchemaModels.Proofs.Files.Unseen
import SchemaModels.Proofs.Introspection.Order

/-!
Runs in a tree that gained a file which no pattern selects. The same files are listed, in
the same order, and what is read of them is the same. So the run is the same.
-/
namespace SchemaModels

variable {tree later : FileTree} {listed : List Path}

theorem addFiles_congr {paths : List Path}
    (h : ∀ path ∈ paths, later.isFile path.text = tree.isFile path.text) :
    addFiles later listed paths = addFiles tree listed paths := by
  induction paths generalizing listed with
  | nil => rfl
  | cons path rest ih =>
      obtain ⟨hPath, hRest⟩ := List.forall_mem_cons.mp h
      rw [addFiles, addFiles, hPath, ih hRest, ih hRest]

section Gained

variable {place : List String} {patterns : List String}
variable (hTree : tree.HasNames) (hLater : later.HasNames) (hGains : tree.GainsFile later place)

include hTree hLater hGains

theorem fileTexts_later (pattern : String) :
    fileTexts tree pattern ⊆ fileTexts later pattern := by
  intro text hText
  obtain ⟨hFound, hFile⟩ := mem_fileTexts_iff.mp hText
  exact mem_fileTexts_iff.mpr
    ⟨Glob.expand_later hTree hLater hGains pattern hFound,
      hGains.isFile_later (Path.isNormal_ofText text) hFile⟩

/-- What is listed was listed before, unless it is the file. -/
theorem fileTexts_before {pattern text : String} (h : text ∈ fileTexts later pattern)
    (hOther : later.locate (Path.ofText text).text ≠ .ok place) :
    text ∈ fileTexts tree pattern := by
  obtain ⟨hFound, hFile⟩ := mem_fileTexts_iff.mp h
  obtain ⟨target, content, hLeads, hLocate, -⟩ :=
    FileTree.exists_place_of_isFile (Path.isNormal_ofText text) hFile
  have hNe : target ≠ place := by
    rintro rfl
    exact hOther hLocate
  refine mem_fileTexts_iff.mpr ⟨?_, ?_⟩
  · rcases Glob.expand_cases hTree hLater hGains hFound with hBefore | ⟨-, other, hPlace⟩
    · exact hBefore
    · exact absurd (FileTree.Reaches.unique hLeads hPlace).1 hNe
  · have hSome := ((FileTree.isFile_text_iff (Path.isNormal_ofText text)).mp hFile).1
    exact (FileTree.isFile_text_iff (Path.isNormal_ofText text)).mpr
      ⟨hSome, target, content, (hGains.leadsTo_of_ne hNe).mp hLeads⟩

/-- A file that is not listed changes nothing in what is. -/
theorem schemaFiles_of_unseen
    (hUnseen : ∀ path ∈ schemaFiles later patterns, later.locate path.text ≠ .ok place) :
    schemaFiles later patterns = schemaFiles tree patterns := by
  have hPattern (pattern : String) (hPattern : pattern ∈ patterns) (listed : List Path) :
      addFiles later listed (expansion later pattern) =
        addFiles tree listed (expansion tree pattern) := by
    have hSame (text : String) :
        text ∈ fileTexts later pattern ↔ text ∈ fileTexts tree pattern := by
      refine ⟨fun hText => ?_, fun hText => fileTexts_later hTree hLater hGains pattern hText⟩
      obtain ⟨hFound, hFile⟩ := mem_fileTexts_iff.mp hText
      exact fileTexts_before hTree hLater hGains hText (hUnseen _ (mem_schemaFiles_iff.mpr
        ⟨hFile, pattern, hPattern, Glob.mem_expansion_iff_expand.mpr ⟨text, hFound, rfl⟩⟩))
    rw [addFiles_expansion, addFiles_expansion, dedup_eq_of_sorted
      (fileTexts_sorted later pattern) (fileTexts_sorted tree pattern) hSame]
    refine addFiles_congr fun path hPath => ?_
    obtain ⟨text, hText, rfl⟩ := List.mem_map.mp hPath
    rw [List.mem_dedup] at hText
    rw [(mem_fileTexts_iff.mp hText).2, (mem_fileTexts_iff.mp ((hSame text).mpr hText)).2]
  rw [schemaFiles, schemaFiles]
  exact List.foldl_ext _ _ _ fun listed pattern hMember => hPattern pattern hMember listed

end Gained

/-! What is read of the files. -/

theorem FileTree.GainsFile.readText_eq {place target : List String}
    (hGains : tree.GainsFile later place) {path : Path}
    (hLocate : tree.locate path.text = .ok target) (hNe : target ≠ place) (decode : Decoder) :
    later.readText path decode = tree.readText path decode := by
  simp only [FileTree.readText, FileTree.read, hGains.find_eq hLocate hNe]

theorem observedFiles_congr {σ : Type} (observer : Option (Observer σ)) {codecs : Codecs}
    {options : RunOptions} {paths : List Path} (h : ∀ path ∈ paths,
      later.readText path (codecs.decoder options.encoding) =
        tree.readText path (codecs.decoder options.encoding))
    (output : List Model) (held : σ) :
    observedFiles observer later options paths output held codecs =
      observedFiles observer tree options paths output held codecs := by
  induction paths generalizing output held with
  | nil => rfl
  | cons path rest ih =>
      obtain ⟨hPath, hRest⟩ := List.forall_mem_cons.mp h
      simp only [observedFiles, observedFile, hPath, ih hRest]

/-- A file that no pattern selects changes nothing in a run. -/
theorem introspect_of_unseen {place : List String} (hTree : tree.HasNames)
    (hLater : later.HasNames) (hGains : tree.GainsFile later place) {codecs : Codecs}
    {options : RunOptions}
    (hUnseen : ∀ path ∈ schemaFiles later options.patterns,
      later.locate path.text ≠ .ok place) :
    introspect later options codecs = introspect tree options codecs := by
  have hFiles := schemaFiles_of_unseen hTree hLater hGains hUnseen
  rw [hFiles] at hUnseen
  simp only [introspect, observedRun, findSchemaFiles, hFiles]
  split
  · rfl
  rename_i paths hPaths
  rw [observedFiles_congr]
  intro path hPath
  have hListed : paths = schemaFiles tree options.patterns := by
    split at hPaths
    · cases hPaths
    · exact (Except.ok.inj hPaths).symm
  rw [hListed] at hPath
  obtain ⟨target, content, -, hLocate, -⟩ := exists_place_of_mem_schemaFiles hPath
  have hNe : target ≠ place := by
    rintro rfl
    exact hUnseen path hPath (hGains.locate_iff.mpr hLocate)
  exact hGains.readText_eq hLocate hNe _

end SchemaModels
