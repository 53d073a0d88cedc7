import SchemaModels.Proofs.Files.Written

/-!
What writing a file changes in a tree. The missing directories on the way to the file
are made, and then the file is put in its place. All that was there before stays.
-/
namespace SchemaModels.FileTree

variable {tree later : FileTree} {path : Path}

/-- A later tree with all that was there before, in which only directories on the way of
a path are new. -/
structure MakesWay (tree later : FileTree) (path : Path) : Prop where
  working : later.working = tree.working
  kept : ∀ place entry, tree.at? place = some entry → later.at? place = some entry
  gained : ∀ place entry, later.at? place = some entry → tree.at? place = none →
    entry = .directory ∧ ∃ above : Path, above.start = path.start ∧ above.parts <+: path.parts ∧
      later.locate above.text = .ok place

namespace MakesWay

theorem refl (tree : FileTree) (path : Path) : tree.MakesWay tree path where
  working := rfl
  kept := fun _ _ h => h
  gained := fun place entry h hNone => by
    rw [hNone] at h
    cases h

theorem locate (h : tree.MakesWay later path) {text : String} {place : List String}
    (hLocate : tree.locate text = .ok place) : later.locate text = .ok place :=
  locate_of_kept (fun place => h.kept place .directory) h.working hLocate

theorem trans {last : FileTree} (hFirst : tree.MakesWay later path)
    (hSecond : later.MakesWay last path) : tree.MakesWay last path where
  working := hSecond.working.trans hFirst.working
  kept := fun place entry h => hSecond.kept place entry (hFirst.kept place entry h)
  gained := fun place entry h hNone => by
    cases hMiddle : later.at? place with
    | none => exact hSecond.gained place entry h hMiddle
    | some found =>
        obtain ⟨hFound, above, hStart, hParts, hAbove⟩ := hFirst.gained place found hMiddle hNone
        obtain rfl := Option.some.inj (h.symm.trans (hSecond.kept place found hMiddle))
        exact ⟨hFound, above, hStart, hParts, hSecond.locate hAbove⟩

/-- The way of the directory that a path is in is a part of the way of the path. -/
theorem of_parent (h : tree.MakesWay later path.parent) : tree.MakesWay later path where
  working := h.working
  kept := h.kept
  gained := fun place entry hAt hNone => by
    obtain ⟨hEntry, above, hStart, hParts, hAbove⟩ := h.gained place entry hAt hNone
    exact ⟨hEntry, above, hStart, hParts.trans (List.dropLast_prefix _), hAbove⟩

/-- No file is new and none is changed. -/
theorem file_iff (h : tree.MakesWay later path) (place : List String) (content : List UInt8) :
    later.at? place = some (.file content) ↔ tree.at? place = some (.file content) := by
  refine ⟨fun hLater => ?_, h.kept place _⟩
  cases hAt : tree.at? place with
  | none =>
      obtain ⟨hNo, -⟩ := h.gained place _ hLater hAt
      cases hNo
  | some entry => rw [← h.kept place entry hAt, hLater]

end MakesWay

theorem makeDirectory_makesWay (h : tree.makeDirectory path = .ok later) :
    tree.MakesWay later path := by
  unfold makeDirectory at h
  split at h
  · cases h
  simp only [Bind.bind, Except.bind] at h
  cases hPlace : tree.locate path.text with
  | error fault =>
      rw [hPlace] at h
      cases h
  | ok place =>
      simp only [hPlace] at h
      cases hAt : tree.at? place with
      | some entry =>
          simp only [hAt] at h
          cases h
      | none =>
          have hSome : place ≠ [] := by
            rintro rfl
            cases hAt
          have hLater : later = tree.put place .directory := by
            simp only [hAt] at h
            split at h
            · exact (Except.ok.inj h).symm
            · cases h
            · cases h
          subst hLater
          refine ⟨rfl, fun other entry hOther => ?_, fun other entry hOther hNone => ?_⟩
          · have hNe : place ≠ other := by
              rintro rfl
              rw [hAt] at hOther
              cases hOther
            rw [at?_put_of_ne hNe, hOther]
          · by_cases hSame : place = other
            · subst hSame
              rw [at?_put_self hSome] at hOther
              have hFree : tree.at? place ≠ some .directory := by simp [hAt]
              exact ⟨(Option.some.inj hOther).symm, path, rfl, List.prefix_refl _,
                locate_put hFree _ hPlace⟩
            · rw [at?_put_of_ne hSame, hNone] at hOther
              cases hOther

theorem ensureDirectory_makesWay (h : tree.ensureDirectory path = .ok later) :
    tree.MakesWay later path := by
  unfold ensureDirectory at h
  cases hMake : tree.makeDirectory path with
  | ok made =>
      rw [hMake] at h
      obtain rfl := Except.ok.inj h
      exact makeDirectory_makesWay hMake
  | error fault =>
      simp only [hMake] at h
      split at h
      · obtain rfl := Except.ok.inj h
        exact .refl tree path
      · cases h

/-- Directories are made on the way only, whether or not all of them can be made. -/
theorem ensureDirectories_makesWay (tree : FileTree) (path : Path) (above : Nat) :
    tree.MakesWay (tree.ensureDirectories path above).1 path := by
  induction above generalizing path with
  | zero =>
      rw [ensureDirectories]
      cases hFirst : tree.ensureDirectory path with
      | ok made => exact ensureDirectory_makesWay hFirst
      | error e => exact .refl tree path
  | succ above ih =>
      rw [ensureDirectories]
      cases hFirst : tree.ensureDirectory path with
      | ok made => exact ensureDirectory_makesWay hFirst
      | error e =>
          dsimp only
          split
          · have hAbove := (ih path.parent).of_parent
            split
            · rename_i left fault hLeft
              rwa [hLeft] at hAbove
            · rename_i made hMade
              rw [hMade] at hAbove
              cases hSecond : made.ensureDirectory path with
              | ok all => exact hAbove.trans (ensureDirectory_makesWay hSecond)
              | error e => exact hAbove
          · exact .refl tree path

/-- When a file cannot be written, no file is changed. -/
theorem writeBelow_failed {content : List UInt8} {e : FileError}
    (h : tree.writeBelow path content = (later, some e)) : tree.MakesWay later path.parent := by
  have hWay := ensureDirectories_makesWay tree path.parent path.parts.length
  unfold writeBelow at h
  split at h
  · rename_i left fault hLeft
    rw [hLeft] at hWay
    obtain ⟨rfl, -⟩ := Prod.mk.inj h
    exact hWay
  · rename_i made hMade
    rw [hMade] at hWay
    split at h
    · cases h
    · obtain ⟨rfl, -⟩ := Prod.mk.inj h
      exact hWay

/-- When a file is written, it is put in its place, and that is all that happens once
its directory is there. -/
theorem writeBelow_written {content : List UInt8}
    (h : tree.writeBelow path content = (later, none)) : ∃ made place,
      tree.MakesWay made path.parent ∧ made.locate path.text = .ok place ∧
        made.at? place ≠ some .directory ∧ later = made.put place (.file content) := by
  obtain ⟨made, hMade, hWrite⟩ := writeBelow_eq_ok_iff.mp h
  have hWay := ensureDirectories_makesWay tree path.parent path.parts.length
  rw [hMade] at hWay
  obtain ⟨place, hPlace, hFree, hLater⟩ := exists_put_of_write hWrite
  exact ⟨made, place, hWay, hPlace, hFree, hLater⟩

/-! A file that is written once more. -/

/-- A directory that is there need not be made. -/
theorem ensureDirectories_of_isDirectory (h : tree.isDirectory path.text = true) (above : Nat) :
    tree.ensureDirectories path above = (tree, none) := by
  have hFind : tree.find path.text = .ok .directory := by
    unfold isDirectory at h
    split at h
    · rename_i hFound
      exact hFound
    · cases h
  obtain ⟨place, hPlace, hAt⟩ := find_eq_ok_iff_locate.mp hFind
  obtain ⟨fault, hFault, hMake⟩ :
      ∃ fault, fault ≠ .missing ∧ tree.makeDirectory path = .error fault := by
    unfold makeDirectory
    split
    · exact ⟨_, by decide, rfl⟩
    · simp only [hPlace, Bind.bind, Except.bind, hAt]
      exact ⟨.exists, by decide, rfl⟩
  have hEnsure : tree.ensureDirectory path = .ok tree := by
    rw [ensureDirectory, hMake]
    simp [h, hFault]
  cases above with
  | zero => rw [ensureDirectories, hEnsure]
  | succ above => rw [ensureDirectories, hEnsure]

theorem write_again {content : List UInt8} (h : tree.write path content = .ok later) :
    later.write path content = .ok later := by
  obtain ⟨place, hPlace, hFree, rfl⟩ := exists_put_of_write h
  have hSome : place ≠ [] := by
    rintro rfl
    exact hFree rfl
  have hAgain : (tree.put place (.file content)).put place (.file content) =
      tree.put place (.file content) := by
    simp only [put, Entries.put_put_self]
  rw [write, if_neg (by simp [hasNull_of_write h]), locate_put hFree _ hPlace]
  simp only [at?_put_self hSome, hAgain]

theorem writeBelow_iff_write {content : List UInt8}
    (hParent : tree.isDirectory path.parent.text = true) :
    tree.writeBelow path content = (later, none) ↔ tree.write path content = .ok later := by
  rw [writeBelow_eq_ok_iff, ensureDirectories_of_isDirectory hParent]
  simp

/-! A file in a directory that is there already. -/

section Below

variable {place : List String} {name : String}

theorem locate_below (hPath : path.IsNormal) (hName : Path.IsName name) {entry : Entry}
    (h : tree.LeadsTo path place entry) :
    tree.locate (path.below [name]).text = tree.walk place [name] := by
  have hBase : tree.walk (tree.base (path.below [name]).start) path.parts = .ok place :=
    (reaches_iff.mp h).1
  have hNormal := hPath.below (List.forall_mem_singleton.mpr hName.toIsPart)
  rw [locate_text hNormal (by simp [Path.below]), Path.below, walk_append, ← Path.below, hBase]
  rfl

/-- Where nothing is in a directory, a file can be written. -/
theorem write_below_directory (hPath : path.IsNormal) (hName : Path.IsName name)
    (hNull : (path.below [name]).hasNull = false) (h : tree.LeadsTo path place .directory)
    (hNew : tree.exists? (path.below [name]).text = false) (content : List UInt8) :
    tree.locate (path.below [name]).text = .ok (place ++ [name]) ∧
      tree.at? (place ++ [name]) = none ∧
      tree.write (path.below [name]) content =
        .ok (tree.put (place ++ [name]) (.file content)) := by
  have hAt := (reaches_iff.mp h).2
  have hPlace : tree.locate (path.below [name]).text = .ok (place ++ [name]) := by
    rw [locate_below hPath hName h, walk_of_directory hAt, step_name hName, walk]
  have hNone : tree.at? (place ++ [name]) = none := by
    cases hFound : tree.at? (place ++ [name]) with
    | none => rfl
    | some found =>
        rw [exists?, find_eq_ok_iff_locate.mpr ⟨_, hPlace, hFound⟩] at hNew
        cases hNew
  refine ⟨hPlace, hNone, ?_⟩
  rw [write, if_neg (by simp [hNull]), hPlace]
  simp only [hNone, List.dropLast_concat, hAt]

/-- Nothing can be written below a file. -/
theorem write_below_file (hPath : path.IsNormal) (hName : Path.IsName name)
    (hNull : (path.below [name]).hasNull = false) {found : List UInt8}
    (h : tree.LeadsTo path place (.file found)) (content : List UInt8) :
    tree.write (path.below [name]) content =
      .error ⟨.notDirectory, (path.below [name]).text⟩ := by
  have hPlace : tree.locate (path.below [name]).text = .error .notDirectory := by
    rw [locate_below hPath hName h, walk, (reaches_iff.mp h).2]
  rw [write, if_neg (by simp [hNull]), hPlace]

/-- What is below a path makes it a directory. -/
theorem isDirectory_of_exists_below (hPath : path.IsNormal) (hName : Path.IsName name)
    (h : tree.exists? (path.below [name]).text = true) :
    ∃ place, tree.LeadsTo path place .directory := by
  obtain ⟨-, place, entry, hLeads, -⟩ := exists_iff_leadsTo.mp h
  rw [Path.ofText_text (hPath.below (List.forall_mem_singleton.mpr hName.toIsPart))] at hLeads
  obtain ⟨middle, hMiddle, -⟩ := reaches_append_cons_iff.mp hLeads
  exact ⟨middle, hMiddle⟩

end Below

end SchemaModels.FileTree
