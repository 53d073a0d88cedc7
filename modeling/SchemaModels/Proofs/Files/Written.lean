import SchemaModels.Files.TextFile
import SchemaModels.Proofs.Files.Places
import SchemaModels.Proofs.Files.Utf8
import SchemaModels.Proofs.Text.Newline

/-!
Files that were written. A file is found again at its path with its content, and
a text without carriage returns is read back as it is.
-/
namespace SchemaModels

namespace FileTree

variable {tree : FileTree} {place : List String}

theorem at?_put_self (h : place ≠ []) (entry : Entry) :
    (tree.put place entry).at? place = some entry := by
  cases place with
  | nil => exact (h rfl).elim
  | cons name rest => exact Entries.get?_put_self tree.entries (name :: rest) entry

theorem at?_put_of_ne {other : List String} (h : place ≠ other) (entry : Entry) :
    (tree.put place entry).at? other = tree.at? other := by
  cases other with
  | nil => rfl
  | cons name rest => exact Entries.get?_put_of_ne tree.entries h entry

/-- What a text leads to stays there when something is put where no directory is. -/
theorem locate_put (hPlace : tree.at? place ≠ some .directory) (entry : Entry) {text : String}
    {target : List String} (h : tree.locate text = .ok target) :
    (tree.put place entry).locate text = .ok target := by
  have hKept (other : List String) (hOther : tree.at? other = some .directory) :
      (tree.put place entry).at? other = some .directory := by
    have hNe : place ≠ other := by
      rintro rfl
      exact hPlace hOther
    rw [at?_put_of_ne hNe, hOther]
  exact locate_of_kept hKept rfl h

/-- A path to which something was written has no null. -/
theorem hasNull_of_write {written : FileTree} {path : Path} {content : List UInt8}
    (h : tree.write path content = .ok written) : path.hasNull = false := by
  cases hNull : path.hasNull with
  | false => rfl
  | true =>
      rw [write, if_pos hNull] at h
      cases h

/-- What is written is a file at the place of the path, where no directory was. -/
theorem exists_put_of_write {written : FileTree} {path : Path} {content : List UInt8}
    (h : tree.write path content = .ok written) :
    ∃ place, tree.locate path.text = .ok place ∧ tree.at? place ≠ some .directory ∧
      written = tree.put place (.file content) := by
  rw [write, if_neg (by simp [hasNull_of_write h])] at h
  cases hPlace : tree.locate path.text with
  | error fault =>
      rw [hPlace] at h
      cases h
  | ok place =>
      refine ⟨place, rfl, ?_⟩
      rw [hPlace] at h
      cases hFound : tree.at? place with
      | none =>
          cases hAbove : tree.at? place.dropLast with
          | none =>
              simp only [hFound, hAbove] at h
              cases h
          | some above =>
              cases above with
              | directory =>
                  simp only [hFound, hAbove] at h
                  exact ⟨by simp, (Except.ok.inj h).symm⟩
              | file other =>
                  simp only [hFound, hAbove] at h
                  cases h
      | some found =>
          cases found with
          | directory =>
              simp only [hFound] at h
              cases h
          | file other =>
              simp only [hFound] at h
              exact ⟨by simp, (Except.ok.inj h).symm⟩

/-- What was written is read back. -/
theorem read_of_write {written : FileTree} {path : Path} {content : List UInt8}
    (h : tree.write path content = .ok written) : written.read path = .ok content := by
  obtain ⟨place, hLocate, hPlace, rfl⟩ := exists_put_of_write h
  have hTop : place ≠ [] := by
    rintro rfl
    exact hPlace rfl
  have hFind : (tree.put place (.file content)).find path.text = .ok (.file content) := by
    simp only [find, locate_put hPlace _ hLocate, Bind.bind, Except.bind, at?_put_self hTop]
    rfl
  rw [read, if_neg (by simp [hasNull_of_write h]), hFind]

/-- A file is written below once its directory is there. -/
theorem writeBelow_eq_ok_iff {written : FileTree} {path : Path} {content : List UInt8} :
    tree.writeBelow path content = (written, none) ↔ ∃ made,
      tree.ensureDirectories path.parent path.parts.length = (made, none) ∧
        made.write path content = .ok written := by
  unfold writeBelow
  rcases tree.ensureDirectories path.parent path.parts.length with ⟨made, e | e⟩
  · cases hWrite : made.write path content <;> simp [hWrite]
  · simp

theorem read_of_writeBelow {written : FileTree} {path : Path} {content : List UInt8}
    (h : tree.writeBelow path content = (written, none)) : written.read path = .ok content := by
  obtain ⟨made, -, hWrite⟩ := writeBelow_eq_ok_iff.mp h
  exact read_of_write hWrite

/-- A file can be written at a path: nothing is in its way. -/
def TakesFile (tree : FileTree) (path : Path) : Prop :=
  ∃ content written, tree.writeBelow path content = (written, none)

/-- What is written does not matter to whether it can be. -/
theorem exists_write {path : Path} {content : List UInt8} {written : FileTree}
    (h : tree.write path content = .ok written) (other : List UInt8) :
    ∃ written, tree.write path other = .ok written := by
  have hNull : ¬path.hasNull = true := by simp [hasNull_of_write h]
  rw [write, if_neg hNull] at h ⊢
  cases hPlace : tree.locate path.text with
  | error fault =>
      rw [hPlace] at h
      cases h
  | ok place =>
      simp only [hPlace] at h
      dsimp only
      split at h
      · cases h
      · exact ⟨_, rfl⟩
      · split at h
        · exact ⟨_, rfl⟩
        · cases h
        · cases h

theorem TakesFile.exists_written {path : Path} (h : tree.TakesFile path) (content : List UInt8) :
    ∃ written, tree.writeBelow path content = (written, none) := by
  obtain ⟨given, written, h⟩ := h
  obtain ⟨made, hMade, hWrite⟩ := writeBelow_eq_ok_iff.mp h
  obtain ⟨after, hAfter⟩ := exists_write hWrite content
  exact ⟨after, writeBelow_eq_ok_iff.mpr ⟨made, hMade, hAfter⟩⟩

end FileTree

/-- The text of a file in UTF-8: the line ends are all that changes. -/
theorem FileTree.readText_utf8 {tree : FileTree} {path : Path} {text : String}
    (h : tree.read path = .ok (utf8Bytes text)) :
    tree.readText path (Encoding.decode · .utf8) =
      .ok (String.ofList (Text.unifyNewlines text.toList)) := by
  simp only [readText, h, decode_utf8Bytes]

/-- A text without carriage returns is read as it is. -/
theorem FileTree.readText_of_read {tree : FileTree} {path : Path} {text : String}
    (hText : '\r' ∉ text.toList) (h : tree.read path = .ok (utf8Bytes text)) :
    tree.readText path (Encoding.decode · .utf8) = .ok text := by
  rw [readText_utf8 h, Text.unifyNewlines_of_not_mem hText, String.ofList_toList]

theorem FileTree.readText_of_writeBelow {tree written : FileTree} {path : Path} {text : String}
    (hText : '\r' ∉ text.toList) (h : tree.writeBelow path (utf8Bytes text) = (written, none)) :
    written.readText path (Encoding.decode · .utf8) = .ok text :=
  readText_of_read hText (read_of_writeBelow h)

end SchemaModels
