import SchemaModels.Proofs.Files.Changes
import SchemaModels.Proofs.Files.Search

/-!
A file that appears in a tree or changes there. Directories stay what they are, so that
all ways go on as before, and the file is all that is new where they end. A search finds
what it found before, and at most the file in addition: nothing is found below it.
-/
namespace SchemaModels

namespace FileTree

/-- A later tree with a file in a place where no directory was. All else is as before. -/
structure GainsFile (tree later : FileTree) (place : List String) : Prop where
  working : later.working = tree.working
  size : tree.entries.length ≤ later.entries.length
  free : tree.at? place ≠ some .directory
  file : ∃ content, later.at? place = some (.file content)
  others : ∀ other, other ≠ place → later.at? other = tree.at? other

variable {tree later : FileTree} {place target : List String} {path : Path} {entry : Entry}

theorem gainsFile_put (hFree : tree.at? place ≠ some .directory) (content : List UInt8) :
    tree.GainsFile (tree.put place (.file content)) place where
  working := rfl
  size := Entries.length_le_put _ _ _
  free := hFree
  file := ⟨content, at?_put_self (fun hNone => hFree (by rw [hNone]; rfl)) _⟩
  others := fun _ hOther => at?_put_of_ne hOther.symm _

namespace GainsFile

variable (h : tree.GainsFile later place)

include h

theorem directory_iff (other : List String) :
    later.at? other = some .directory ↔ tree.at? other = some .directory := by
  by_cases hOther : other = place
  · obtain ⟨content, hFile⟩ := h.file
    rw [hOther, hFile]
    exact ⟨fun hNo => (by cases hNo), fun hNo => absurd hNo h.free⟩
  · rw [h.others other hOther]

/-- The same ways are open. -/
theorem locate_iff {text : String} : later.locate text = .ok target ↔
    tree.locate text = .ok target :=
  ⟨locate_of_kept (fun other => (h.directory_iff other).mp) h.working.symm,
    locate_of_kept (fun other => (h.directory_iff other).mpr) h.working⟩

theorem walk_iff {start names : List String} : later.walk start names = .ok target ↔
    tree.walk start names = .ok target :=
  ⟨walk_of_kept fun other => (h.directory_iff other).mp,
    walk_of_kept fun other => (h.directory_iff other).mpr⟩

theorem leadsTo_iff : later.LeadsTo path target entry ↔
    tree.walk (tree.base path.start) path.parts = .ok target ∧ later.at? target = some entry := by
  have hBase : later.base path.start = tree.base path.start := by
    cases path.start with
    | relative => exact h.working
    | top => rfl
    | doubleTop => rfl
  rw [LeadsTo, reaches_iff, hBase, h.walk_iff]

theorem leadsTo_directory_iff : later.LeadsTo path target .directory ↔
    tree.LeadsTo path target .directory := by
  rw [h.leadsTo_iff, h.directory_iff, LeadsTo, reaches_iff]

theorem leadsTo_of_ne (hNe : target ≠ place) : later.LeadsTo path target entry ↔
    tree.LeadsTo path target entry := by
  rw [h.leadsTo_iff, h.others target hNe, LeadsTo, reaches_iff]

/-- What led somewhere leads there again, to a directory if it did. -/
theorem exists_leadsTo (hLeads : tree.LeadsTo path target entry) :
    ∃ found, later.LeadsTo path target found ∧ (entry = .directory → found = .directory) := by
  by_cases hNe : target = place
  · obtain ⟨content, hFile⟩ := h.file
    obtain ⟨hWalk, hAt⟩ := reaches_iff.mp hLeads
    refine ⟨.file content, h.leadsTo_iff.mpr ⟨hWalk, hNe ▸ hFile⟩, ?_⟩
    rintro rfl
    exact absurd (hNe ▸ hAt) h.free
  · exact ⟨entry, (h.leadsTo_of_ne hNe).mpr hLeads, id⟩

/-- What leads somewhere did so before, or it leads to the file. -/
theorem leadsTo_cases (hLeads : later.LeadsTo path target entry) :
    tree.LeadsTo path target entry ∨
      ∃ content, entry = .file content ∧ later.LeadsTo path place (.file content) := by
  by_cases hNe : target = place
  · subst hNe
    obtain ⟨content, hFile⟩ := h.file
    obtain ⟨-, hAt⟩ := h.leadsTo_iff.mp hLeads
    obtain rfl := Option.some.inj (hAt.symm.trans hFile)
    exact .inr ⟨content, rfl, hLeads⟩
  · exact .inl ((h.leadsTo_of_ne hNe).mp hLeads)

theorem isDirectory_eq (text : String) : later.isDirectory text = tree.isDirectory text := by
  rw [Bool.eq_iff_iff, isDirectory_iff, isDirectory_iff]
  simp only [h.leadsTo_directory_iff]

theorem isFile_later {path : Path} (hPath : path.IsNormal) (hFile : tree.isFile path.text = true) :
    later.isFile path.text = true := by
  obtain ⟨hSome, target, content, hLeads⟩ := (isFile_text_iff hPath).mp hFile
  obtain ⟨found, hFound, -⟩ := h.exists_leadsTo hLeads
  cases found with
  | directory => cases (Reaches.unique (h.leadsTo_directory_iff.mp hFound) hLeads).2
  | file other => exact (isFile_text_iff hPath).mpr ⟨hSome, target, other, hFound⟩

theorem find_eq {text : String} (hLocate : tree.locate text = .ok target) (hNe : target ≠ place) :
    later.find text = tree.find text := by
  simp only [find, hLocate, h.locate_iff.mpr hLocate, Bind.bind, Except.bind,
    h.others target hNe]

end GainsFile

/-- A text names the file at a place. -/
def NamesFile (tree : FileTree) (place : List String) (text : String) : Prop :=
  text ≠ "" ∧ ∃ content, tree.LeadsTo (Path.ofText text) place (.file content)

theorem GainsFile.exists_later (h : tree.GainsFile later place) {text : String}
    (hExists : tree.exists? text = true) : later.exists? text = true := by
  obtain ⟨hText, target, entry, hLeads, hKind⟩ := exists_iff_leadsTo.mp hExists
  obtain ⟨found, hFound, hSame⟩ := h.exists_leadsTo hLeads
  exact exists_iff_leadsTo.mpr ⟨hText, target, found, hFound, hKind.imp_left hSame⟩

theorem GainsFile.exists_cases (h : tree.GainsFile later place) {text : String}
    (hExists : later.exists? text = true) :
    tree.exists? text = true ∨ later.NamesFile place text := by
  obtain ⟨hText, target, entry, hLeads, hKind⟩ := exists_iff_leadsTo.mp hExists
  rcases h.leadsTo_cases hLeads with hBefore | ⟨content, -, hFile⟩
  · exact .inl (exists_iff_leadsTo.mpr ⟨hText, target, entry, hBefore, hKind⟩)
  · exact .inr ⟨hText, content, hFile⟩

/-- In a directory that is there, writing changes one place. Writing the same once more
changes nothing. -/
theorem gainsFile_of_writeBelow {content : List UInt8}
    (hParent : tree.isDirectory path.parent.text = true)
    (h : tree.writeBelow path content = (later, none)) : ∃ place,
      tree.locate path.text = .ok place ∧ later = tree.put place (.file content) ∧
        tree.GainsFile later place ∧ later.writeBelow path content = (later, none) := by
  have hWrite := (writeBelow_iff_write hParent).mp h
  obtain ⟨place, hPlace, hFree, hLater⟩ := exists_put_of_write hWrite
  have hGains : tree.GainsFile later place := hLater ▸ gainsFile_put hFree content
  have hAgain : later.isDirectory path.parent.text = true :=
    (hGains.isDirectory_eq _).trans hParent
  exact ⟨place, hPlace, hLater, hGains, (writeBelow_iff_write hAgain).mpr (write_again hWrite)⟩

/-! The names in the later tree. -/

theorem isName_of_walk {start names : List String} (hStart : ∀ name ∈ start, Path.IsName name)
    (hNames : ∀ name ∈ names, name ≠ "" ∧ '/' ∉ name.toList)
    (h : tree.walk start names = .ok target) : ∀ name ∈ target, Path.IsName name := by
  induction names generalizing start with
  | nil =>
      obtain rfl := Except.ok.inj h
      exact hStart
  | cons name rest ih =>
      obtain ⟨⟨hSome, hSeparator⟩, hRest⟩ := List.forall_mem_cons.mp hNames
      rw [walk_of_directory (directory_of_walk h)] at h
      refine ih ?_ hRest h
      intro other hOther
      rw [step] at hOther
      split_ifs at hOther with hHere hUp
      · exact hStart other hOther
      · exact hStart other (List.dropLast_subset _ hOther)
      · rcases List.mem_append.mp hOther with hOld | hNew
        · exact hStart other hOld
        · obtain rfl := List.mem_singleton.mp hNew
          exact ⟨⟨hSome, hHere, hSeparator⟩, hUp⟩

/-- A place that a text names has names that can be written. -/
theorem isName_of_locate (hTree : tree.HasNames) {text : String}
    (h : tree.locate text = .ok place) : ∀ name ∈ place, Path.IsName name := by
  have hNames : ∀ name ∈ namesOf text, name ≠ "" ∧ '/' ∉ name.toList := by
    intro name hName
    rw [namesOf, ← Path.namesOf] at hName
    have hCases : name ∈ (Path.namesOf text.toList).filter (· != "") ∨ name = "." := by
      split at hName
      · simpa using hName
      · exact .inl hName
    rcases hCases with hMember | rfl
    · obtain ⟨hMember, hSome⟩ := List.mem_filter.mp hMember
      exact ⟨by simpa using hSome, Path.no_separator_of_mem_namesOf hMember⟩
    · decide
  rw [locate] at h
  split_ifs at h with hEmpty hTop
  · exact isName_of_walk (List.forall_mem_nil _) hNames h
  · exact isName_of_walk hTree.working hNames h

theorem HasNames.put (hTree : tree.HasNames) (hPlace : ∀ name ∈ place, Path.IsName name)
    (entry : Entry) : (tree.put place entry).HasNames where
  entries := fun found hFound => by
    rcases Entries.mem_of_mem_put hFound with hOld | rfl
    · exact hTree.entries found hOld
    · exact hPlace
  working := hTree.working

end FileTree

end SchemaModels
