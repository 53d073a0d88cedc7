import Mathlib.Data.List.Nodup
import Mathlib.Data.List.Perm.Subperm
import SchemaModels.Files.Tree
import SchemaModels.Proofs.Entries
import SchemaModels.Proofs.Files.Paths

/-!
What texts lead to in a tree. A list of names leads from directory to directory, so
each name but the last has to be the one of a directory. Names that stay in place do
not count, except at the end, where they ask for a directory.
-/
namespace SchemaModels.FileTree

/-- Where a name leads to from a directory. -/
def step (place : List String) (name : String) : List String :=
  if name = "." then place
  else if name = ".." then place.dropLast
  else place ++ [name]

/-- Names lead from a place to another one, and to what is there. -/
inductive Reaches (tree : FileTree) : List String → List String → List String → Entry → Prop
  | here {place : List String} {entry : Entry} (hAt : tree.at? place = some entry) :
      Reaches tree place [] place entry
  | step {place rest target : List String} {name : String} {entry : Entry}
      (hAt : tree.at? place = some .directory)
      (hRest : Reaches tree (step place name) rest target entry) :
      Reaches tree place (name :: rest) target entry

/-- Where the parts of a path are followed from. -/
def base (tree : FileTree) : PathStart → List String
  | .relative => tree.working
  | .top => []
  | .doubleTop => []

/-- A path leads to a place and to what is there. -/
def LeadsTo (tree : FileTree) (path : Path) (place : List String) (entry : Entry) : Prop :=
  tree.Reaches (tree.base path.start) path.parts place entry

/-- All names in a tree can be written in a path. -/
structure HasNames (tree : FileTree) : Prop where
  entries : ∀ entry ∈ tree.entries, ∀ name ∈ entry.1, Path.IsName name
  working : ∀ name ∈ tree.working, Path.IsName name

instance (tree : FileTree) : Decidable tree.HasNames :=
  decidable_of_iff ((∀ entry ∈ tree.entries, ∀ name ∈ entry.1, Path.IsName name) ∧
      ∀ name ∈ tree.working, Path.IsName name)
    ⟨fun h => ⟨h.1, h.2⟩, fun h => ⟨h.entries, h.working⟩⟩

variable {tree : FileTree} {place target : List String} {entry : Entry}

@[simp] theorem step_here (place : List String) : step place "." = place := rfl

theorem step_name {name : String} (h : Path.IsName name) : step place name = place ++ [name] := by
  rw [step, if_neg h.ne_here, if_neg h.ne_up]

theorem walk_of_directory (hAt : tree.at? place = some .directory) (name : String)
    (rest : List String) : tree.walk place (name :: rest) = tree.walk (step place name) rest := by
  rw [walk, hAt, step]
  simp only
  split_ifs
  · rfl
  · rfl
  · rfl

theorem directory_of_walk {name : String} {rest : List String}
    (h : tree.walk place (name :: rest) = .ok target) : tree.at? place = some .directory := by
  cases hAt : tree.at? place with
  | none =>
      rw [walk, hAt] at h
      cases h
  | some found =>
      cases found with
      | directory => rfl
      | file content =>
          rw [walk, hAt] at h
          cases h

theorem walk_append (start before after : List String) : tree.walk start (before ++ after) =
    (tree.walk start before).bind fun middle => tree.walk middle after := by
  induction before generalizing start with
  | nil => rfl
  | cons name rest ih =>
      rw [List.cons_append, walk, walk]
      cases tree.at? start with
      | none => rfl
      | some found =>
          cases found with
          | file content => rfl
          | directory =>
              simp only
              split_ifs
              · exact ih start
              · exact ih start.dropLast
              · exact ih (start ++ [name])

/-- A way stays open as long as the directories stay: it only goes through them. -/
theorem walk_of_kept {later : FileTree}
    (hKept : ∀ place, tree.at? place = some .directory → later.at? place = some .directory)
    {start : List String} {names : List String} (h : tree.walk start names = .ok target) :
    later.walk start names = .ok target := by
  induction names generalizing start with
  | nil => exact h
  | cons name rest ih =>
      have hAt := directory_of_walk h
      rw [walk_of_directory hAt] at h
      rw [walk_of_directory (hKept start hAt)]
      exact ih h

theorem locate_of_kept {later : FileTree}
    (hKept : ∀ place, tree.at? place = some .directory → later.at? place = some .directory)
    (hWorking : later.working = tree.working) {text : String}
    (h : tree.locate text = .ok target) : later.locate text = .ok target := by
  unfold locate at h ⊢
  rw [hWorking]
  split_ifs at h ⊢ with hEmpty hTop
  · exact walk_of_kept hKept h
  · exact walk_of_kept hKept h

/-- What is in the way of names is found by the system. -/
theorem report_of_walk {start names : List String} {fault : FileFault}
    (h : tree.walk start names = .error fault) : fault.report?.isSome = true := by
  induction names generalizing start with
  | nil => cases h
  | cons name rest ih =>
      rw [walk] at h
      split at h
      · cases h
        rfl
      · cases h
        rfl
      · split_ifs at h
        · exact ih h
        · exact ih h
        · exact ih h

theorem report_of_find {text : String} {fault : FileFault} (h : tree.find text = .error fault) :
    fault.report?.isSome = true := by
  unfold find at h
  cases hPlace : tree.locate text with
  | error other =>
      simp only [hPlace, Bind.bind, Except.bind] at h
      obtain rfl := Except.error.inj h
      unfold locate at hPlace
      split_ifs at hPlace
      · cases hPlace
        rfl
      · exact report_of_walk hPlace
      · exact report_of_walk hPlace
  | ok place =>
      simp only [hPlace, Bind.bind, Except.bind] at h
      split at h
      · cases h
      · cases h
        rfl

/-- Where a path without a null cannot be read, the system says why. -/
theorem isReported_of_read {path : Path} {e : FileError} (hPath : path.hasNull = false)
    (h : tree.read path = .error e) : e.isReported = true := by
  rw [read, if_neg (by simp [hPath])] at h
  split at h
  · cases h
  · cases h
    rfl
  · rename_i fault hFind
    cases h
    exact report_of_find hFind

theorem reaches_iff {names : List String} : tree.Reaches place names target entry ↔
    tree.walk place names = .ok target ∧ tree.at? target = some entry := by
  constructor
  · intro h
    induction h with
    | here hAt => exact ⟨rfl, hAt⟩
    | step hAt _ ih => exact ⟨(walk_of_directory hAt _ _).trans ih.1, ih.2⟩
  · rintro ⟨hWalk, hAt⟩
    induction names generalizing place with
    | nil =>
        obtain rfl := Except.ok.inj hWalk
        exact .here hAt
    | cons name rest ih =>
        have hPlace := directory_of_walk hWalk
        rw [walk_of_directory hPlace] at hWalk
        exact .step hPlace (ih hWalk)

/-- Names lead to one place only, and to one thing there. -/
theorem Reaches.unique {names other : List String} {found : Entry}
    (h : tree.Reaches place names target entry) (hOther : tree.Reaches place names other found) :
    target = other ∧ entry = found := by
  rw [reaches_iff] at h hOther
  obtain rfl := Except.ok.inj (h.1.symm.trans hOther.1)
  exact ⟨rfl, Option.some.inj (h.2.symm.trans hOther.2)⟩

theorem reaches_nil_iff :
    tree.Reaches place [] target entry ↔ place = target ∧ tree.at? place = some entry := by
  constructor
  · rintro (⟨hAt⟩ | _)
    exact ⟨rfl, hAt⟩
  · rintro ⟨rfl, hAt⟩
    exact .here hAt

theorem reaches_cons_iff {name : String} {rest : List String} :
    tree.Reaches place (name :: rest) target entry ↔
      tree.at? place = some .directory ∧ tree.Reaches (step place name) rest target entry := by
  constructor
  · rintro (_ | ⟨hAt, hRest⟩)
    exact ⟨hAt, hRest⟩
  · rintro ⟨hAt, hRest⟩
    exact .step hAt hRest

/-- More names lead on from what the first ones lead to. -/
theorem reaches_append_iff {before after : List String} :
    tree.Reaches place (before ++ after) target entry ↔
      ∃ middle found, tree.Reaches place before middle found ∧
        tree.Reaches middle after target entry := by
  induction before generalizing place with
  | nil =>
      constructor
      · intro h
        cases h with
        | here hAt => exact ⟨_, _, .here hAt, .here hAt⟩
        | step hAt hRest => exact ⟨_, _, .here hAt, .step hAt hRest⟩
      · rintro ⟨middle, found, hBefore, hAfter⟩
        obtain ⟨rfl, -⟩ := reaches_nil_iff.mp hBefore
        exact hAfter
  | cons name before ih =>
      simp only [List.cons_append, reaches_cons_iff, ih]
      constructor
      · rintro ⟨hAt, middle, found, hBefore, hAfter⟩
        exact ⟨middle, found, ⟨hAt, hBefore⟩, hAfter⟩
      · rintro ⟨middle, found, ⟨hAt, hBefore⟩, hAfter⟩
        exact ⟨hAt, middle, found, hBefore, hAfter⟩

/-- What more names lead on from is a directory. -/
theorem reaches_append_cons_iff {before after : List String} {name : String} :
    tree.Reaches place (before ++ name :: after) target entry ↔
      ∃ middle, tree.Reaches place before middle .directory ∧
        tree.Reaches (step middle name) after target entry := by
  rw [reaches_append_iff]
  constructor
  · rintro ⟨middle, found, hBefore, hAfter⟩
    obtain ⟨hAt, hRest⟩ := reaches_cons_iff.mp hAfter
    obtain rfl : found = .directory :=
      Option.some.inj ((reaches_iff.mp hBefore).2.symm.trans hAt)
    exact ⟨middle, hBefore, hRest⟩
  · rintro ⟨middle, hBefore, hRest⟩
    exact ⟨middle, .directory, hBefore, .step (reaches_iff.mp hBefore).2 hRest⟩

/-- Names that stay in place do not count, except at the end of those of a file. -/
theorem reaches_filter_iff {names : List String} :
    tree.Reaches place names target entry ↔
      tree.Reaches place (names.filter (· != ".")) target entry ∧
        (entry = .directory ∨ names.getLast? ≠ some ".") := by
  induction names generalizing place with
  | nil => simp
  | cons name rest ih =>
      by_cases hHere : name = "."
      · subst hHere
        rw [reaches_cons_iff, step_here, ih, List.filter_cons_of_neg (by simp)]
        cases rest with
        | nil =>
            rw [List.filter_nil, reaches_nil_iff]
            constructor
            · rintro ⟨hAt, ⟨hTarget, hEntry⟩, -⟩
              exact ⟨⟨hTarget, hEntry⟩, .inl (Option.some.inj (hEntry.symm.trans hAt))⟩
            · rintro ⟨⟨hTarget, hEntry⟩, rfl | hLast⟩
              · exact ⟨hEntry, ⟨hTarget, hEntry⟩, .inl rfl⟩
              · exact absurd rfl hLast
        | cons next rest =>
            rw [List.getLast?_cons_cons, ← ih, reaches_cons_iff]
            exact ⟨fun h => h.2, fun h => ⟨h.1, h⟩⟩
      · rw [reaches_cons_iff, ih, List.filter_cons_of_pos (by simpa using hHere),
          reaches_cons_iff, and_assoc]
        cases rest with
        | nil => simp [hHere]
        | cons next rest => rw [List.getLast?_cons_cons]

/-! The names in a text. -/

theorem filter_namesOf (text : String) :
    (namesOf text).filter (· != ".") = Path.partsOf text.toList := by
  have hParts : ((Path.namesOf text.toList).filter (· != "")).filter (· != ".") =
      Path.partsOf text.toList := by
    rw [List.filter_filter, Path.partsOf_eq]
    exact List.filter_congr fun name _ => Bool.and_comm _ _
  rw [← hParts, namesOf]
  split
  · rw [List.filter_append]
    exact List.append_nil _
  · rfl

/-- A text ends in a part unless its names end where they stay in place. -/
theorem getLast?_namesOf_ne_iff (text : String) :
    (namesOf text).getLast? ≠ some "." ↔ Path.EndsInPart text.toList := by
  obtain ⟨last, hLast⟩ : ∃ last, (Path.namesOf text.toList).getLast? = some last :=
    ⟨_, List.getLast?_eq_some_getLast (Path.namesOf_ne_nil _)⟩
  have hEnds : Path.EndsInPart text.toList ↔ last ≠ "" ∧ last ≠ "." := by
    simp [Path.EndsInPart, hLast, Path.leads]
  rw [hEnds]
  by_cases hEmpty : last = ""
  · have hNames : namesOf text = (Path.namesOf text.toList).filter (· != "") ++ ["."] := by
      rw [namesOf]
      exact if_pos (beq_iff_eq.mpr (hLast.trans (congrArg some hEmpty)))
    rw [hNames, List.getLast?_append]
    simp [hEmpty]
  · obtain ⟨front, hFront⟩ := List.getLast?_eq_some_iff.mp hLast
    have hNames : namesOf text = front.filter (· != "") ++ [last] := by
      rw [namesOf, ← Path.namesOf, if_neg (by simpa [hLast] using hEmpty), hFront,
        List.filter_append, List.filter_cons_of_pos (by simpa using hEmpty), List.filter_nil]
    rw [hNames, List.getLast?_append]
    simp [hEmpty]

theorem startsWith_separator_iff {text : String} :
    text.startsWith "/" = true ↔ text.toList.head? = some '/' :=
  Path.startsWith_iff_head? rfl

theorem locate_eq {text : String} (h : text ≠ "") :
    tree.locate text = tree.walk (tree.base (Path.ofText text).start) (namesOf text) := by
  have hText : ¬text.isEmpty := by simpa using h
  have hStart : (if text.startsWith "/" then [] else tree.working) =
      tree.base (Path.ofText text).start := by
    by_cases hHead : text.toList.head? = some '/'
    · have hAbsolute : Path.startOf text.toList ≠ .relative := by
        rw [Ne, Path.startOf_eq_relative_iff, not_not]
        exact hHead
      rw [if_pos (startsWith_separator_iff.mpr hHead), Path.ofText]
      cases hStart : Path.startOf text.toList with
      | relative => exact absurd hStart hAbsolute
      | top => rfl
      | doubleTop => rfl
    · rw [if_neg (mt startsWith_separator_iff.mp hHead), Path.ofText,
        Path.startOf_eq_relative_iff.mpr hHead]
      rfl
  rw [locate, if_neg hText, hStart]

/-- The text of a path is followed part by part. -/
theorem locate_text {path : Path} (h : path.IsNormal) (hSome : path.parts ≠ []) :
    tree.locate path.text = tree.walk (tree.base path.start) path.parts := by
  have hEnds := Path.endsInPart_text h hSome
  have hText : path.text ≠ "" := by
    intro hNone
    rw [hNone] at hEnds
    exact Path.not_endsInPart_nil hEnds
  have hNames : namesOf path.text = path.parts := by
    obtain ⟨count, hCount⟩ := Path.namesOf_text h hSome
    have hLast : (List.replicate count "" ++ path.parts).getLast? =
        some (path.parts.getLast hSome) := by
      rw [List.getLast?_append, List.getLast?_eq_some_getLast hSome, Option.some_or]
    have hFull : ∀ part ∈ path.parts, (part != "") = true := fun part hPart => by
      simpa using (h part hPart).ne_empty
    rw [namesOf, ← Path.namesOf, hCount, if_neg, List.filter_append,
      List.filter_eq_self.mpr hFull, List.filter_replicate_of_neg (by decide), List.nil_append]
    rw [hLast, beq_iff_eq, Option.some.injEq]
    exact (h _ (List.getLast_mem hSome)).ne_empty
  rw [locate_eq hText, Path.ofText_text h, hNames]

/-- A text names the place its path leads to. One that names a file ends in a part. -/
theorem locate_iff {text : String} (h : text ≠ "") :
    (tree.locate text = .ok place ∧ tree.at? place = some entry) ↔
      tree.LeadsTo (Path.ofText text) place entry ∧
        (entry = .directory ∨ Path.EndsInPart text.toList) := by
  rw [locate_eq h, ← reaches_iff, reaches_filter_iff, filter_namesOf, getLast?_namesOf_ne_iff]
  exact Iff.rfl

theorem find_eq_ok_iff_locate {text : String} : tree.find text = .ok entry ↔
    ∃ place, tree.locate text = .ok place ∧ tree.at? place = some entry := by
  simp only [find, Bind.bind, Except.bind]
  cases tree.locate text with
  | error fault => simp
  | ok place =>
      cases hAt : tree.at? place with
      | none => simp [hAt, throw, throwThe, MonadExceptOf.throw]
      | some found => simp [hAt, pure, Except.pure]

theorem find_eq_ok_iff {text : String} : tree.find text = .ok entry ↔
    text ≠ "" ∧ (entry = .directory ∨ Path.EndsInPart text.toList) ∧
      ∃ place, tree.LeadsTo (Path.ofText text) place entry := by
  rw [find_eq_ok_iff_locate]
  by_cases hText : text = ""
  · subst hText
    simp [locate]
  · simp only [locate_iff hText, exists_and_right]
    exact ⟨fun h => ⟨hText, h.2, h.1⟩, fun h => ⟨h.2.2, h.2.1⟩⟩

theorem isFile_iff {text : String} : tree.isFile text = true ↔
    Path.EndsInPart text.toList ∧
      ∃ place content, tree.LeadsTo (Path.ofText text) place (.file content) := by
  have hFile : tree.isFile text = true ↔ ∃ content, tree.find text = .ok (.file content) := by
    unfold isFile
    split <;> simp_all
  simp only [hFile, find_eq_ok_iff, reduceCtorEq, false_or]
  constructor
  · rintro ⟨content, -, hEnds, place, hLeads⟩
    exact ⟨hEnds, place, content, hLeads⟩
  · rintro ⟨hEnds, place, content, hLeads⟩
    refine ⟨content, ?_, hEnds, place, hLeads⟩
    rintro rfl
    simp [Path.EndsInPart, Path.leads] at hEnds

theorem isDirectory_iff {text : String} : tree.isDirectory text = true ↔
    text ≠ "" ∧ ∃ place, tree.LeadsTo (Path.ofText text) place .directory := by
  have hDirectory : tree.isDirectory text = true ↔ tree.find text = .ok .directory := by
    unfold isDirectory
    split <;> simp_all
  rw [hDirectory, find_eq_ok_iff]
  simp

theorem exists_iff {text : String} : tree.exists? text = true ↔
    tree.isDirectory text = true ∨ tree.isFile text = true := by
  unfold exists? isDirectory isFile
  cases tree.find text with
  | error fault => simp [Except.toOption]
  | ok found =>
      cases found with
      | directory => simp [Except.toOption]
      | file content => simp [Except.toOption]

theorem exists_iff_leadsTo {text : String} : tree.exists? text = true ↔
    text ≠ "" ∧ ∃ place entry, tree.LeadsTo (Path.ofText text) place entry ∧
      (entry = .directory ∨ Path.EndsInPart text.toList) := by
  have hExists : tree.exists? text = true ↔ ∃ entry, tree.find text = .ok entry := by
    unfold exists?
    cases tree.find text with
    | error fault => simp [Except.toOption]
    | ok found => simp [Except.toOption]
  simp only [hExists, find_eq_ok_iff]
  constructor
  · rintro ⟨entry, hText, hKind, place, hLeads⟩
    exact ⟨hText, place, entry, hLeads, hKind⟩
  · rintro ⟨hText, place, entry, hLeads, hKind⟩
    exact ⟨entry, hText, hKind, place, hLeads⟩

/-- The text of a path names a file exactly if the path leads to one from some parts
on. -/
theorem isFile_text_iff {path : Path} (h : path.IsNormal) : tree.isFile path.text = true ↔
    path.parts ≠ [] ∧ ∃ place content, tree.LeadsTo path place (.file content) := by
  rw [isFile_iff, Path.ofText_text h]
  have hEnds : Path.EndsInPart path.text.toList ↔ path.parts ≠ [] := by
    refine ⟨?_, Path.endsInPart_text h⟩
    rintro ⟨name, hName, hLeads⟩ hNone
    have hMember : name ∈ Path.partsOf path.text.toList := by
      rw [Path.partsOf_eq, List.mem_filter]
      exact ⟨List.mem_of_mem_getLast? hName, hLeads⟩
    rw [Path.partsOf_text h, hNone] at hMember
    cases hMember
  rw [hEnds]

theorem exists_place_of_isFile {path : Path} (hPath : path.IsNormal)
    (hFile : tree.isFile path.text = true) : ∃ place content,
      tree.LeadsTo path place (.file content) ∧ tree.locate path.text = .ok place ∧
        tree.at? place = some (.file content) := by
  obtain ⟨hSome, place, content, hLeads⟩ := (isFile_text_iff hPath).mp hFile
  obtain ⟨hWalk, hAt⟩ := reaches_iff.mp hLeads
  exact ⟨place, content, hLeads, (locate_text hPath hSome).trans hWalk, hAt⟩

/-- What leads to a directory names no file. -/
theorem isFile_eq_false_of_leadsTo {path : Path} (hPath : path.IsNormal)
    (h : tree.LeadsTo path place .directory) : tree.isFile path.text = false := by
  rw [Bool.eq_false_iff]
  intro hFile
  obtain ⟨-, other, content, hLeads⟩ := (isFile_text_iff hPath).mp hFile
  cases (Reaches.unique h hLeads).2

/-! The names in a directory. -/

theorem at?_isSome_iff (h : place ≠ []) :
    (∃ entry, tree.at? place = some entry) ↔ ∃ entry, (place, entry) ∈ tree.entries := by
  cases place with
  | nil => exact absurd rfl h
  | cons name rest => exact Entries.exists_get?_iff

/-- A name that an entry stands under in a directory. -/
theorem exists_mem_entries_iff (tree : FileTree) (place : List String) (name : String) :
    (∃ entry, (place ++ [name], entry) ∈ tree.entries) ↔
      ∃ item ∈ tree.entries, item.1.dropLast = place ∧ item.1.getLast? = some name := by
  have hKey (key : List String) :
      (key.dropLast = place ∧ key.getLast? = some name) ↔ key = place ++ [name] := by
    constructor
    · rintro ⟨rfl, hLast⟩
      exact (List.dropLast_append_getLast? name hLast).symm
    · rintro rfl
      simp
  simp [hKey]

/-- The names in the directory that a text names, which is the working one for no text. -/
theorem mem_list_iff_entry {text name : String} : name ∈ tree.list text ↔
    ∃ place, tree.LeadsTo (Path.ofText text) place .directory ∧
      ∃ entry, (place ++ [name], entry) ∈ tree.entries := by
  have hNamed : (if text.isEmpty then "." else text) ≠ "" := by
    split
    · decide
    · rename_i hText
      simpa using hText
  have hPath : Path.ofText (if text.isEmpty then "." else text) = Path.ofText text := by
    split
    · rename_i hText
      rw [String.isEmpty_iff.mp hText]
      rfl
    · rfl
  have hPlace (place : List String) : tree.LeadsTo (Path.ofText text) place .directory ↔
      tree.locate (if text.isEmpty then "." else text) = .ok place ∧
        tree.at? place = some .directory := by
    rw [locate_iff hNamed, hPath]
    simp
  simp only [hPlace, list]
  cases tree.locate (if text.isEmpty then "." else text) with
  | error fault => simp
  | ok place =>
      by_cases hAt : tree.at? place = some .directory
      · simp [hAt, exists_mem_entries_iff tree place name]
      · simp [hAt]

/-- What is one name below a path is an entry of the directory there. -/
theorem exists_leadsTo_below_iff {path : Path} {name : String} :
    (∃ place entry, tree.LeadsTo (path.below [name]) place entry) ↔
      ∃ middle, tree.LeadsTo path middle .directory ∧
        ∃ entry, tree.at? (step middle name) = some entry := by
  simp only [LeadsTo, Path.below, reaches_append_cons_iff, reaches_nil_iff]
  constructor
  · rintro ⟨place, entry, middle, hMiddle, -, hAt⟩
    exact ⟨middle, hMiddle, entry, hAt⟩
  · rintro ⟨middle, hMiddle, entry, hAt⟩
    exact ⟨_, entry, middle, hMiddle, rfl, hAt⟩

/-- The names in the directory that a text names are those that lead on from there. -/
theorem mem_list_iff (hTree : tree.HasNames) {text name : String} :
    name ∈ tree.list text ↔ Path.IsName name ∧
      ∃ place entry, tree.LeadsTo ((Path.ofText text).below [name]) place entry := by
  rw [mem_list_iff_entry, exists_leadsTo_below_iff]
  constructor
  · rintro ⟨place, hPlace, entry, hEntry⟩
    have hName : Path.IsName name := hTree.entries _ hEntry _ (by simp)
    refine ⟨hName, place, hPlace, ?_⟩
    rw [step_name hName, at?_isSome_iff (by simp)]
    exact ⟨entry, hEntry⟩
  · rintro ⟨hName, place, hPlace, hAt⟩
    rw [step_name hName, at?_isSome_iff (by simp)] at hAt
    exact ⟨place, hPlace, hAt⟩

/-! The place of a path. -/

theorem Reaches.target_eq {names : List String} (h : tree.Reaches place names target entry) :
    target = names.foldl FileTree.step place := by
  induction h with
  | here hAt => rfl
  | step hAt _ ih => exact ih

theorem foldl_step_names {names : List String} (h : ∀ name ∈ names, Path.IsName name) :
    names.foldl step place = place ++ names := by
  induction names generalizing place with
  | nil => simp
  | cons name rest ih =>
      obtain ⟨hName, hRest⟩ := List.forall_mem_cons.mp h
      rw [List.foldl_cons, step_name hName, ih hRest, List.append_assoc, List.singleton_append]

theorem collapse_eq_foldl {parts : List String} (h : "." ∉ parts) :
    Path.collapse parts = parts.foldl step [] := by
  have hFold (above : List String) :
      parts.foldl (fun above part => if part = ".." then above.drop 1 else part :: above) above =
        (parts.foldl step above.reverse).reverse := by
    induction parts generalizing above with
    | nil => simp
    | cons part rest ih =>
        rw [List.mem_cons, not_or] at h
        have hStep : (if part = ".." then above.drop 1 else part :: above).reverse =
            step above.reverse part := by
          rw [step, if_neg (Ne.symm h.1)]
          split_ifs
          · simp
          · simp
        rw [List.foldl_cons, List.foldl_cons, ih h.2, hStep]
  rw [Path.collapse, hFold, List.reverse_nil, List.reverse_reverse]

theorem mem_of_mem_collapse {parts : List String} {part : String}
    (h : part ∈ Path.collapse parts) : part ∈ parts := by
  have hFold (parts above : List String)
      (hPart : part ∈ parts.foldl
        (fun above part => if part = ".." then above.drop 1 else part :: above) above) :
      part ∈ above ∨ part ∈ parts := by
    induction parts generalizing above with
    | nil => exact .inl hPart
    | cons next rest ih =>
        rw [List.foldl_cons] at hPart
        rcases ih _ hPart with hAbove | hRest
        · split at hAbove
          · exact .inl (List.mem_of_mem_drop hAbove)
          · rw [List.mem_cons] at hAbove ⊢
            exact hAbove.elim (fun hNext => .inr (.inl hNext)) .inl
        · exact .inr (List.mem_cons_of_mem _ hRest)
  rw [Path.collapse, List.mem_reverse] at h
  exact (hFold parts [] h).resolve_left List.not_mem_nil

theorem isNormal_resolve (hTree : tree.HasNames) {path : Path} (hPath : path.IsNormal) :
    (Path.resolve tree.working path).IsNormal := by
  intro part hPart
  have hMember := mem_of_mem_collapse hPart
  split at hMember
  · exact hPath part hMember
  · exact (List.mem_append.mp hMember).elim
      (fun hWorking => (hTree.working part hWorking).toIsPart) (hPath part)

/-- A path leads to the place that is left of it when the parts that go up are taken
together with those they leave. -/
theorem LeadsTo.place_eq (hTree : tree.HasNames) {path : Path} (hPath : path.IsNormal)
    (h : tree.LeadsTo path place entry) :
    place = (Path.resolve tree.working path).parts := by
  have hParts : "." ∉ path.parts := fun hMember => (hPath _ hMember).ne_here rfl
  have hWorking : "." ∉ tree.working := fun hMember => (hTree.working _ hMember).ne_here rfl
  rw [Reaches.target_eq h, Path.resolve, Path.isAbsolute]
  cases path.start with
  | relative =>
      have hAll : "." ∉ tree.working ++ path.parts := by simp [hWorking, hParts]
      have hBase : tree.working.foldl step [] = tree.working :=
        (foldl_step_names hTree.working).trans (List.nil_append _)
      simp only [bne_self_eq_false, Bool.false_eq_true, if_false]
      rw [collapse_eq_foldl hAll, List.foldl_append, hBase]
      rfl
  | top => exact (collapse_eq_foldl hParts).symm
  | doubleTop => exact (collapse_eq_foldl hParts).symm

/-- A way that never goes up passes a new place with each name, so it has no more
names than the tree has entries. -/
theorem length_le_of_reaches {names : List String} (hNames : ∀ name ∈ names, Path.IsName name)
    (h : tree.Reaches place names target entry) : names.length ≤ tree.entries.length := by
  have hPassed (count : Nat) (hCount : count < names.length) :
      place ++ names.take (count + 1) ∈ tree.entries.map Prod.fst := by
    rw [← List.take_append_drop (count + 1) names, reaches_append_iff] at h
    obtain ⟨middle, found, hBefore, -⟩ := h
    obtain rfl := (Reaches.target_eq hBefore).trans
      (foldl_step_names fun name hName => hNames name (List.mem_of_mem_take hName))
    have hSome : place ++ names.take (count + 1) ≠ [] := by
      intro hNone
      have hLength := congrArg List.length hNone
      simp only [List.length_append, List.length_take, List.length_nil] at hLength
      omega
    obtain ⟨passed, hPassed⟩ := (at?_isSome_iff hSome).mp ⟨found, (reaches_iff.mp hBefore).2⟩
    exact List.mem_map.mpr ⟨_, hPassed, rfl⟩
  have hDistinct : ((List.range names.length).map
      fun count => place ++ names.take (count + 1)).Nodup := by
    refine List.Nodup.map_on ?_ List.nodup_range
    intro first hFirst second hSecond hSame
    rw [List.mem_range] at hFirst hSecond
    have hLength := congrArg List.length hSame
    simp only [List.length_append, List.length_take] at hLength
    omega
  have hSubset : ((List.range names.length).map
      fun count => place ++ names.take (count + 1)) ⊆ tree.entries.map Prod.fst := by
    intro passed hMember
    obtain ⟨count, hCount, rfl⟩ := List.mem_map.mp hMember
    exact hPassed count (List.mem_range.mp hCount)
  simpa using (hDistinct.subperm hSubset).length_le

end SchemaModels.FileTree
