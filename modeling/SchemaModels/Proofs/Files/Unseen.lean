import SchemaModels.Proofs.Files.Expansion
import SchemaModels.Proofs.Files.Gained

/-!
The search in a tree that gained a file. Each name of a pattern selects what it selected
before, and at most the file in addition. Nothing is selected in a file, so the patterns
select what they selected before, and at most texts that name the file.
-/
namespace SchemaModels.Glob

open FileTree (HasNames GainsFile NamesFile)
open SchemaModels.Path (IsName)

variable {tree later : FileTree} {place : List String} {only : Bool}
variable {directory text : String}

/-- Something is selected in directories only. -/
theorem directory_of_mem_namesIn (hTree : tree.HasNames)
    (h : text ∈ namesIn tree only directory) :
    ∃ place, tree.LeadsTo (Path.ofText directory) place .directory := by
  have hOffers : Offers tree only directory ([] ++ [text]) := ((mem_namesIn_iff hTree).mp h).2
  obtain ⟨place, hPlace⟩ := hOffers.leadsTo_directory (List.cons_ne_nil _ _)
  exact ⟨place, by rwa [below_nothing] at hPlace⟩

/-- What a name of a pattern selects something in is a directory. -/
theorem directory_of_mem_select (hTree : tree.HasNames) {segment : Segment}
    (hWritten : segment.IsWritten) (h : text ∈ segment.select tree only directory) :
    directory = "" ∨ ∃ place, tree.LeadsTo (Path.ofText directory) place .directory := by
  cases segment with
  | close =>
      obtain ⟨-, hDirectory⟩ := mem_select_close_iff.mp h
      exact .inr (FileTree.isDirectory_iff.mp hDirectory).2
  | plain name =>
      obtain ⟨-, hExists⟩ := mem_select_plain_iff.mp h
      by_cases hStep : (Segment.plain name).isStep = true
      · obtain ⟨-, place, entry, hLeads, -⟩ := FileTree.exists_iff_leadsTo.mp hExists
        rw [ofText_joinTexts (writes_part (isPart_of_plain hWritten hStep))] at hLeads
        obtain ⟨middle, hMiddle, -⟩ := FileTree.reaches_append_cons_iff.mp hLeads
        exact .inr ⟨middle, hMiddle⟩
      · obtain rfl : name = "." := by simpa [Segment.isStep] using hStep
        have hHere := (FileTree.isDirectory_iff.mp (isDirectory_of_exists_here hExists)).2
        rw [ofText_joinTexts writes_here, below_nothing] at hHere
        exact .inr hHere
  | wild pattern => exact .inr (directory_of_mem_namesIn hTree (mem_select_wild_iff.mp h).1)
  | deep =>
      rcases mem_select_deep_iff.mp h with ⟨-, hHere⟩ | hBelow
      · exact hHere.imp_right fun h => (FileTree.isDirectory_iff.mp h).2
      · obtain ⟨name, hName, -⟩ := mem_namesBelow_succ_iff.mp hBelow
        exact .inr (directory_of_mem_namesIn hTree hName)

/-- Nothing is selected in a file. -/
theorem not_mem_select_of_namesFile (hTree : tree.HasNames) {segment : Segment}
    (hWritten : segment.IsWritten) (hFile : tree.NamesFile place directory) :
    text ∉ segment.select tree only directory := by
  intro h
  obtain ⟨hSome, content, hLeads⟩ := hFile
  rcases directory_of_mem_select hTree hWritten h with hNone | ⟨other, hDirectory⟩
  · exact hSome hNone
  · cases (FileTree.Reaches.unique hLeads hDirectory).2

/-! The names below a directory. -/

/-- A search that goes further down in a tree that offers more finds more. -/
theorem namesBelow_subset (hNames : ∀ directory, namesIn tree only directory ⊆
      namesIn later only directory) {depth more : Nat} (hDepth : depth ≤ more)
    (directory : String) :
    namesBelow tree only depth directory ⊆ namesBelow later only more directory := by
  induction depth generalizing more directory with
  | zero => exact List.nil_subset _
  | succ depth ih =>
      obtain ⟨more, rfl⟩ : ∃ less, more = less + 1 := ⟨more - 1, by omega⟩
      intro text hText
      obtain ⟨name, hName, hSeen, hText⟩ := mem_namesBelow_succ_iff.mp hText
      refine mem_namesBelow_succ_iff.mpr ⟨name, hNames directory hName, hSeen, ?_⟩
      refine hText.imp_right ?_
      rintro ⟨below, hBelow, hJoined⟩
      exact ⟨below, ih (Nat.le_of_succ_le_succ hDepth) _ hBelow, hJoined⟩

/-- What is found below a directory is found as far down as it has names. -/
theorem mem_namesBelow_length (hTree : tree.HasNames) {depth : Nat}
    (h : text ∈ namesBelow tree only depth directory) : ∃ names, AreSeen names ∧
      Offers tree only directory names ∧ text ∈ namesBelow tree only names.length directory := by
  induction depth generalizing directory text with
  | zero => cases h
  | succ depth ih =>
      obtain ⟨name, hName, hSeen, hText⟩ := mem_namesBelow_succ_iff.mp h
      obtain ⟨hIsName, hOffers⟩ := (mem_namesIn_iff hTree).mp hName
      rcases hText with rfl | ⟨below, hBelow, hJoined⟩
      · exact ⟨[text], List.forall_mem_singleton.mpr ⟨hIsName, hSeen⟩, hOffers,
          mem_namesBelow_succ_iff.mpr ⟨text, hName, hSeen, .inl rfl⟩⟩
      · obtain ⟨names, hNames, ⟨place, entry, hLeads, hOnly⟩, hFound⟩ := ih hBelow
        rw [ofText_joinTexts (writes_part hIsName.toIsPart), below_below] at hLeads
        exact ⟨name :: names, List.forall_mem_cons.mpr ⟨⟨hIsName, hSeen⟩, hNames⟩,
          ⟨place, entry, hLeads, hOnly⟩,
          mem_namesBelow_succ_iff.mpr ⟨name, hName, hSeen, .inr ⟨below, hFound, hJoined⟩⟩⟩

/-- The search below a directory ends: it goes down as far as the tree has entries. -/
theorem mem_namesBelow_entries (hTree : tree.HasNames) {depth : Nat}
    (h : text ∈ namesBelow tree only depth directory) :
    text ∈ namesBelow tree only (tree.entries.length + 1) directory := by
  obtain ⟨names, hNames, hOffers, hFound⟩ := mem_namesBelow_length hTree h
  exact namesBelow_subset (fun _ => List.Subset.refl _) (hOffers.length_le hNames) directory hFound

/-- Nothing is found below a file. -/
theorem not_mem_namesBelow_of_namesFile (hTree : tree.HasNames) {depth : Nat}
    (hFile : tree.NamesFile place directory) : text ∉ namesBelow tree only depth directory := by
  intro h
  obtain ⟨-, content, hLeads⟩ := hFile
  cases depth with
  | zero => cases h
  | succ depth =>
      obtain ⟨name, hName, -⟩ := mem_namesBelow_succ_iff.mp h
      obtain ⟨other, hDirectory⟩ := directory_of_mem_namesIn hTree hName
      cases (FileTree.Reaches.unique hLeads hDirectory).2

/-- Texts can be joined one after the other or all at once. -/
theorem namesFile_joinTexts {name below : String} {names : List String} (hName : Path.IsPart name)
    (hBelow : Writes below names) (hSome : names ≠ [])
    (hFile : tree.NamesFile place (joinTexts (joinTexts directory name) below)) :
    tree.NamesFile place (joinTexts directory (joinTexts name below)) := by
  obtain ⟨-, content, hLeads⟩ := hFile
  have hNonempty : below ≠ "" := by
    rintro rfl
    exact hSome (congrArg Path.parts hBelow).symm
  refine ⟨joinTexts_ne_nil (joinTexts_ne_nil hNonempty), content, ?_⟩
  rw [ofText_joinTexts (writes_joinTexts hName hBelow)]
  rwa [ofText_joinTexts hBelow, ofText_joinTexts (writes_part hName), below_below] at hLeads

section Gained

variable (hTree : tree.HasNames) (hLater : later.HasNames) (hGains : tree.GainsFile later place)

include hTree hLater hGains

theorem namesIn_later (only : Bool) (directory : String) :
    namesIn tree only directory ⊆ namesIn later only directory := by
  intro name hName
  obtain ⟨hIsName, target, entry, hLeads, hOnly⟩ := (mem_namesIn_iff hTree).mp hName
  obtain ⟨found, hFound, hSame⟩ := hGains.exists_leadsTo hLeads
  exact (mem_namesIn_iff hLater).mpr ⟨hIsName, target, found, hFound, fun h => hSame (hOnly h)⟩

theorem namesIn_cases (h : text ∈ namesIn later only directory) :
    text ∈ namesIn tree only directory ∨ later.NamesFile place (joinTexts directory text) := by
  obtain ⟨hName, target, entry, hLeads, hOnly⟩ := (mem_namesIn_iff hLater).mp h
  rcases hGains.leadsTo_cases hLeads with hBefore | ⟨content, -, hFile⟩
  · exact .inl ((mem_namesIn_iff hTree).mpr ⟨hName, target, entry, hBefore, hOnly⟩)
  · refine .inr ⟨joinTexts_ne_nil hName.ne_empty, content, ?_⟩
    rwa [ofText_joinTexts (writes_part hName.toIsPart)]

theorem namesBelow_cases {depth : Nat} (h : text ∈ namesBelow later only depth directory) :
    text ∈ namesBelow tree only depth directory ∨
      later.NamesFile place (joinTexts directory text) := by
  induction depth generalizing directory text with
  | zero => cases h
  | succ depth ih =>
      obtain ⟨name, hName, hSeen, hText⟩ := mem_namesBelow_succ_iff.mp h
      have hPart := ((mem_namesIn_iff hLater).mp hName).1.toIsPart
      rcases namesIn_cases hTree hLater hGains hName with hBefore | hFile
      · rcases hText with rfl | ⟨below, hBelow, rfl⟩
        · exact .inl (mem_namesBelow_succ_iff.mpr ⟨text, hBefore, hSeen, .inl rfl⟩)
        · rcases ih hBelow with hFound | hFile
          · exact .inl (mem_namesBelow_succ_iff.mpr
              ⟨name, hBefore, hSeen, .inr ⟨below, hFound, rfl⟩⟩)
          · obtain ⟨names, hSome, hWrites, -⟩ := writes_of_mem_namesBelow hLater hBelow
            exact .inr (namesFile_joinTexts hPart hWrites hSome hFile)
      · rcases hText with rfl | ⟨below, hBelow, rfl⟩
        · exact .inr hFile
        · exact absurd hBelow (not_mem_namesBelow_of_namesFile hLater hFile)

theorem select_later (segment : Segment) (only : Bool) (directory : String) :
    segment.select tree only directory ⊆ segment.select later only directory := by
  have hNames := namesIn_later hTree hLater hGains only
  intro text hText
  cases segment with
  | close =>
      rw [mem_select_close_iff] at hText ⊢
      rwa [hGains.isDirectory_eq]
  | plain name =>
      exact mem_select_plain_iff.mpr ((mem_select_plain_iff.mp hText).imp_right hGains.exists_later)
  | wild pattern =>
      exact mem_select_wild_iff.mpr
        ((mem_select_wild_iff.mp hText).imp_left fun hName => hNames directory hName)
  | deep =>
      rw [mem_select_deep_iff] at hText ⊢
      rw [hGains.isDirectory_eq]
      exact hText.imp_right fun hBelow =>
        namesBelow_subset hNames (Nat.succ_le_succ hGains.size) directory hBelow

theorem select_cases {segment : Segment} (h : text ∈ segment.select later only directory) :
    text ∈ segment.select tree only directory ∨
      later.NamesFile place (joinTexts directory text) := by
  cases segment with
  | close =>
      rw [mem_select_close_iff, hGains.isDirectory_eq] at h
      exact .inl (mem_select_close_iff.mpr h)
  | plain name =>
      obtain ⟨rfl, hExists⟩ := mem_select_plain_iff.mp h
      exact (hGains.exists_cases hExists).imp_left fun hBefore =>
        mem_select_plain_iff.mpr ⟨rfl, hBefore⟩
  | wild pattern =>
      obtain ⟨hName, hAdmits⟩ := mem_select_wild_iff.mp h
      exact (namesIn_cases hTree hLater hGains hName).imp_left fun hBefore =>
        mem_select_wild_iff.mpr ⟨hBefore, hAdmits⟩
  | deep =>
      rw [mem_select_deep_iff, hGains.isDirectory_eq] at h
      rcases h with hHere | hBelow
      · exact .inl (mem_select_deep_iff.mpr (.inl hHere))
      · exact (namesBelow_cases hTree hLater hGains hBelow).imp_left fun hFound =>
          mem_select_deep_iff.mpr (.inr (mem_namesBelow_entries hTree hFound))

/-! All names of a pattern. -/

theorem selectAll_later (segments : List Segment) {directories more : List String}
    (hMore : directories ⊆ more) :
    selectAll tree directories segments ⊆ selectAll later more segments := by
  induction segments generalizing directories more with
  | nil => exact hMore
  | cons segment rest ih =>
      refine ih fun text hText => ?_
      obtain ⟨directory, hDirectory, hText⟩ := List.mem_flatMap.mp hText
      exact List.mem_flatMap.mpr ⟨directory, hMore hDirectory,
        List.map_subset _ (select_later hTree hLater hGains segment _ directory) hText⟩

/-- What is selected from some directories on was selected before, or it names the file.
Among the directories there may be the file: nothing more is selected in it. -/
theorem selectAll_cases {segments : List Segment}
    (hWritten : ∀ segment ∈ segments, segment.IsWritten) {directories before : List String}
    (hBefore : ∀ directory ∈ directories, directory ∈ before ∨ later.NamesFile place directory)
    (h : text ∈ selectAll later directories segments) :
    text ∈ selectAll tree before segments ∨ later.NamesFile place text := by
  induction segments generalizing directories before with
  | nil => exact hBefore text h
  | cons segment rest ih =>
      obtain ⟨hFirst, hOthers⟩ := List.forall_mem_cons.mp hWritten
      refine ih hOthers (fun reached hReached => ?_) h
      obtain ⟨directory, hDirectory, hJoined⟩ := List.mem_flatMap.mp hReached
      obtain ⟨name, hName, rfl⟩ := List.mem_map.mp hJoined
      rcases hBefore directory hDirectory with hOld | hFile
      · exact (select_cases hTree hLater hGains hName).imp_left fun hSelected =>
          List.mem_flatMap.mpr ⟨directory, hOld, List.mem_map_of_mem hSelected⟩
      · exact absurd hName (not_mem_select_of_namesFile hLater hFirst hFile)

/-- A pattern selects what it selected before. -/
theorem expand_later (pattern : String) : expand tree pattern ⊆ expand later pattern := by
  intro found hFound
  by_cases hWild : hasWildcard pattern = true
  · obtain ⟨directory, rest, hPattern, -⟩ := exists_startsIn hWild
    rw [mem_expand_below_iff hPattern] at hFound ⊢
    exact hFound.imp_left fun hSelected =>
      selectAll_later hTree hLater hGains _ (List.Subset.refl _) hSelected
  · rw [Bool.not_eq_true] at hWild
    rw [mem_expand_literal_iff hWild] at hFound ⊢
    obtain ⟨hText, hExists, hDirectory⟩ := hFound
    rw [hGains.isDirectory_eq]
    exact ⟨hText, hGains.exists_later hExists, hDirectory⟩

/-- What a pattern selects was selected before, or it names the file. -/
theorem expand_cases {pattern : String} (h : text ∈ expand later pattern) :
    text ∈ expand tree pattern ∨ later.NamesFile place text := by
  by_cases hWild : hasWildcard pattern = true
  · obtain ⟨directory, rest, hPattern, -⟩ := exists_startsIn hWild
    rw [mem_expand_below_iff hPattern] at h ⊢
    obtain ⟨hSelected, hSome⟩ := h
    exact (selectAll_cases hTree hLater hGains
      (fun _ hSegment => isWritten_of_mem_segmentsOf hSegment)
      (fun _ hDirectory => .inl hDirectory) hSelected).imp_left fun hFound => ⟨hFound, hSome⟩
  · rw [Bool.not_eq_true] at hWild
    rw [mem_expand_literal_iff hWild] at h ⊢
    rw [hGains.isDirectory_eq] at h
    obtain ⟨rfl, hExists, hDirectory⟩ := h
    exact (hGains.exists_cases hExists).imp_left fun hBefore => ⟨rfl, hBefore, hDirectory⟩

end Gained

end SchemaModels.Glob
