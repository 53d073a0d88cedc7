import SchemaModels.Introspection.Listing
import SchemaModels.Proofs.Files.Selection

/-!
The search for what a pattern stands for. Each name of the pattern selects texts that
go on from a directory by parts that the name stands for, and it selects all of them
that lead somewhere.
-/
namespace SchemaModels.Glob

open FileTree (HasNames LeadsTo)
open SchemaModels.Path (IsName IsPart EndsInPart)

/-- A text writes some parts that are seen from a directory. -/
def Writes (text : String) (parts : List String) : Prop :=
  Path.ofText text = ⟨.relative, parts⟩

theorem writes_nothing : Writes "" [] := rfl

theorem writes_here : Writes "." [] := rfl

theorem writes_part {name : String} (h : IsPart name) : Writes name [name] := by
  have hHead : name.toList.head? ≠ some '/' := fun hHead =>
    h.no_separator (List.mem_of_mem_head? hHead)
  rw [Writes, Path.ofText, Path.startOf_eq_relative_iff.mpr hHead, h.partsOf_eq]

theorem Writes.head_ne {text : String} {parts : List String} (h : Writes text parts) :
    text.toList.head? ≠ some '/' :=
  Path.startOf_eq_relative_iff.mp (congrArg Path.start h)

theorem Writes.partsOf_eq {text : String} {parts : List String} (h : Writes text parts) :
    Path.partsOf text.toList = parts :=
  congrArg Path.parts h

/-- Texts that are joined stand behind each other, with one separator between them if
there is something in front. -/
theorem joinTexts_cases (directory name : String) :
    (directory = "" ∧ joinTexts directory name = name) ∨
      ∃ before, (joinTexts directory name).toList = before ++ '/' :: name.toList ∧
        ((directory.toList = before ++ ['/']) ∨
          (directory.toList = before ∧ ∃ c ∈ before, c ≠ '/')) := by
  by_cases hEmpty : directory = ""
  · subst hEmpty
    exact .inl ⟨rfl, rfl⟩
  refine .inr ?_
  rw [joinTexts, if_neg (by simpa using hEmpty)]
  by_cases hEnd : ['/'] <:+ directory.toList
  · obtain ⟨before, hBefore⟩ := hEnd
    rw [if_pos (Path.endsWith_separator_iff.mpr ⟨before, hBefore⟩)]
    exact ⟨before, by simp [← hBefore], .inl hBefore.symm⟩
  · rw [if_neg (mt Path.endsWith_separator_iff.mp hEnd)]
    refine ⟨directory.toList, by simp, .inr ⟨rfl, ?_⟩⟩
    have hSome : directory.toList ≠ [] := by simpa using hEmpty
    refine ⟨directory.toList.getLast hSome, List.getLast_mem hSome, ?_⟩
    intro hLast
    refine hEnd ⟨directory.toList.dropLast, ?_⟩
    rw [← hLast, List.dropLast_append_getLast]

variable {directory text : String} {parts : List String}

/-- A text after a directory goes on by the parts that it writes. -/
theorem ofText_joinTexts (h : Writes text parts) :
    Path.ofText (joinTexts directory text) = (Path.ofText directory).below parts := by
  rcases joinTexts_cases directory text with ⟨rfl, hJoin⟩ | ⟨before, hJoin, hBefore⟩
  · rw [hJoin]
    exact h
  · have hParts : Path.partsOf directory.toList = Path.partsOf before := by
      rcases hBefore with hBefore | ⟨hBefore, -⟩
      · rw [hBefore, Path.partsOf_append, Path.partsOf_nil, List.append_nil]
      · rw [hBefore]
    have hStart : Path.startOf (before ++ '/' :: text.toList) =
        Path.startOf directory.toList := by
      rcases hBefore with hBefore | ⟨hBefore, hOther⟩
      · rw [hBefore, ← List.singleton_append, ← List.append_assoc]
        exact Path.startOf_append (.inr h.head_ne)
      · rw [hBefore]
        exact Path.startOf_append (.inl hOther)
    rw [Path.ofText, hJoin, hStart, Path.partsOf_append, h.partsOf_eq, ← hParts]
    rfl

theorem writes_joinTexts {name : String} (hName : IsPart name) (h : Writes text parts) :
    Writes (joinTexts name text) (name :: parts) := by
  rw [Writes, ofText_joinTexts h, writes_part hName]
  rfl

theorem endsInPart_joinTexts_iff :
    EndsInPart (joinTexts directory text).toList ↔ EndsInPart text.toList := by
  rcases joinTexts_cases directory text with ⟨rfl, hJoin⟩ | ⟨before, hJoin, -⟩
  · rw [hJoin]
  · rw [hJoin]
    exact Path.endsInPart_append_iff

theorem endsInPart_name {name : String} (h : IsPart name) : EndsInPart name.toList :=
  ⟨name, by rw [Path.namesOf_part h.no_separator]; rfl, h.leads⟩

theorem joinTexts_ne_nil (h : text ≠ "") : joinTexts directory text ≠ "" := by
  rcases joinTexts_cases directory text with ⟨rfl, hJoin⟩ | ⟨before, hJoin, -⟩
  · rwa [hJoin]
  · intro hNone
    rw [hNone] at hJoin
    simp at hJoin

variable {tree : FileTree} {only : Bool}

/-- Something is where the parts below a directory lead, and a directory if only those
are wanted. -/
def Offers (tree : FileTree) (only : Bool) (directory : String) (parts : List String) : Prop :=
  ∃ place entry, tree.LeadsTo ((Path.ofText directory).below parts) place entry ∧
    (only = true → entry = .directory)

theorem below_below (path : Path) (before after : List String) :
    (path.below before).below after = path.below (before ++ after) := by
  rw [Path.below, Path.below, Path.below, List.append_assoc]

/-- What leads further is a directory. -/
theorem Offers.leadsTo_directory {taken left : List String}
    (h : Offers tree only directory (taken ++ left)) (hLeft : left ≠ []) :
    ∃ place, tree.LeadsTo ((Path.ofText directory).below taken) place .directory := by
  obtain ⟨name, rest, rfl⟩ := List.exists_cons_of_ne_nil hLeft
  obtain ⟨place, entry, hLeads, -⟩ := h
  rw [← below_below] at hLeads
  obtain ⟨middle, hMiddle, -⟩ := FileTree.reaches_append_cons_iff.mp hLeads
  exact ⟨middle, hMiddle⟩

theorem Offers.of_append {taken left : List String}
    (h : Offers tree only directory (taken ++ left)) (hText : Writes text taken) :
    Offers tree only (joinTexts directory text) left := by
  obtain ⟨place, entry, hLeads, hOnly⟩ := h
  refine ⟨place, entry, ?_, hOnly⟩
  rwa [ofText_joinTexts hText, below_below]

theorem mem_namesIn_iff (hTree : tree.HasNames) {name : String} :
    name ∈ namesIn tree only directory ↔ IsName name ∧ Offers tree only directory [name] := by
  cases only with
  | false =>
      rw [namesIn, if_neg (by decide), FileTree.mem_list_iff hTree]
      simp [Offers]
  | true =>
      rw [namesIn, if_pos rfl, List.mem_filter, FileTree.mem_list_iff hTree]
      constructor
      · rintro ⟨⟨hName, -⟩, hDirectory⟩
        rw [FileTree.isDirectory_iff, ofText_joinTexts (writes_part hName.toIsPart)] at hDirectory
        obtain ⟨-, place, hPlace⟩ := hDirectory
        exact ⟨hName, place, .directory, hPlace, fun _ => rfl⟩
      · rintro ⟨hName, place, entry, hLeads, hOnly⟩
        obtain rfl := hOnly rfl
        refine ⟨⟨hName, place, _, hLeads⟩, ?_⟩
        rw [FileTree.isDirectory_iff, ofText_joinTexts (writes_part hName.toIsPart)]
        exact ⟨joinTexts_ne_nil hName.ne_empty, place, hLeads⟩

/-- Names for parts of a path that are not hidden. -/
abbrev AreSeen (names : List String) : Prop := Segment.deep.Takes names

theorem mem_namesBelow_succ_iff {depth : Nat} :
    text ∈ namesBelow tree only (depth + 1) directory ↔
      ∃ name ∈ namesIn tree only directory, isHidden name = false ∧
        (text = name ∨ ∃ below ∈ namesBelow tree only depth (joinTexts directory name),
          joinTexts name below = text) := by
  simp only [namesBelow, List.mem_flatMap, List.mem_filter, List.mem_cons, List.mem_map,
    Bool.not_eq_true', and_assoc]

/-- The texts below a directory write names that are not hidden. -/
theorem writes_of_mem_namesBelow (hTree : tree.HasNames) {depth : Nat}
    (h : text ∈ namesBelow tree only depth directory) :
    ∃ names, names ≠ [] ∧ Writes text names ∧ AreSeen names := by
  induction depth generalizing directory text with
  | zero => cases h
  | succ depth ih =>
      obtain ⟨name, hName, hSeen, hText⟩ := mem_namesBelow_succ_iff.mp h
      obtain ⟨hName, -⟩ := (mem_namesIn_iff hTree).mp hName
      rcases hText with rfl | ⟨below, hBelow, rfl⟩
      · exact ⟨[text], List.cons_ne_nil _ _, writes_part hName.toIsPart,
          List.forall_mem_singleton.mpr ⟨hName, hSeen⟩⟩
      · obtain ⟨names, -, hWrites, hNames⟩ := ih hBelow
        exact ⟨name :: names, List.cons_ne_nil _ _, writes_joinTexts hName.toIsPart hWrites,
          List.forall_mem_cons.mpr ⟨⟨hName, hSeen⟩, hNames⟩⟩

/-- All that is below a directory under names that are not hidden is found if the
search goes down far enough. -/
theorem exists_mem_namesBelow (hTree : tree.HasNames) {depth : Nat} {names : List String}
    (hSome : names ≠ []) (hDepth : names.length ≤ depth) (hNames : AreSeen names)
    (h : Offers tree only directory names) :
    ∃ text ∈ namesBelow tree only depth directory, Writes text names := by
  induction names generalizing depth directory with
  | nil => exact absurd rfl hSome
  | cons name rest ih =>
      obtain ⟨⟨hName, hSeen⟩, hRest⟩ := List.forall_mem_cons.mp hNames
      replace h : Offers tree only directory ([name] ++ rest) := h
      obtain ⟨depth, rfl⟩ : ∃ less, depth = less + 1 := ⟨depth - 1, by simp at hDepth; omega⟩
      have hFirst : Offers tree only directory [name] := by
        by_cases hLast : rest = []
        · rwa [hLast] at h
        · obtain ⟨place, hPlace⟩ := h.leadsTo_directory hLast
          exact ⟨place, .directory, hPlace, fun _ => rfl⟩
      have hListed := (mem_namesIn_iff hTree).mpr ⟨hName, hFirst⟩
      have hWrites := writes_part hName.toIsPart
      by_cases hLast : rest = []
      · subst hLast
        exact ⟨name, mem_namesBelow_succ_iff.mpr ⟨name, hListed, hSeen, .inl rfl⟩, hWrites⟩
      · obtain ⟨below, hBelow, hBelowWrites⟩ := ih hLast (Nat.le_of_succ_le_succ hDepth) hRest
          (h.of_append hWrites)
        exact ⟨joinTexts name below,
          mem_namesBelow_succ_iff.mpr ⟨name, hListed, hSeen, .inr ⟨below, hBelow, rfl⟩⟩,
          writes_joinTexts hName.toIsPart hBelowWrites⟩

/-! One name of a pattern. -/

section Select

variable {name pattern : String}

theorem mem_select_close_iff : text ∈ Segment.close.select tree only directory ↔
    text = "" ∧ tree.isDirectory directory = true := by
  rw [Segment.select]
  split <;> simp [*]

theorem mem_select_plain_iff : text ∈ (Segment.plain name).select tree only directory ↔
    text = name ∧ tree.exists? (joinTexts directory name) = true := by
  rw [Segment.select]
  split <;> simp [*]

theorem mem_select_wild_iff : text ∈ (Segment.wild pattern).select tree only directory ↔
    text ∈ namesIn tree only directory ∧ (isHidden text = true → isHidden pattern = true) ∧
      admits (pieces pattern.toList) text.toList = true := by
  cases hHidden : isHidden pattern with
  | false =>
      simp only [Segment.select, hHidden, List.mem_filter, Bool.not_eq_true', Bool.false_eq_true,
        if_false, imp_false, Bool.not_eq_true, and_assoc]
  | true => simp [Segment.select, hHidden]

theorem mem_select_deep_iff : text ∈ Segment.deep.select tree only directory ↔
    (text = "" ∧ (directory = "" ∨ tree.isDirectory directory = true)) ∨
      text ∈ namesBelow tree only (tree.entries.length + 1) directory := by
  have hHere : (directory.isEmpty || tree.isDirectory directory) = true ↔
      directory = "" ∨ tree.isDirectory directory = true := by
    rw [Bool.or_eq_true, String.isEmpty_iff]
  rw [Segment.select, List.mem_append, ← hHere]
  split <;> simp [*]

end Select

@[simp] theorem below_nothing (path : Path) : path.below [] = path := by
  rw [Path.below, List.append_nil]

/-- A text that stays in a directory names nothing or a directory. -/
theorem isDirectory_of_stays (hText : Writes text []) {place : List String}
    (h : tree.LeadsTo (Path.ofText directory) place .directory) :
    joinTexts directory text = "" ∨ tree.isDirectory (joinTexts directory text) = true := by
  by_cases hSome : joinTexts directory text = ""
  · exact .inl hSome
  · refine .inr (FileTree.isDirectory_iff.mpr ⟨hSome, place, ?_⟩)
    rwa [ofText_joinTexts hText, below_nothing]

/-- A file has a name, so a point leads to no file. -/
theorem isDirectory_of_exists_here (h : tree.exists? (joinTexts directory ".") = true) :
    tree.isDirectory (joinTexts directory ".") = true := by
  rcases FileTree.exists_iff.mp h with hDirectory | hFile
  · exact hDirectory
  · obtain ⟨name, hName, hLeads⟩ := endsInPart_joinTexts_iff.mp (FileTree.isFile_iff.mp hFile).1
    obtain rfl := Option.some.inj hName
    exact absurd hLeads (by decide)

/-- What a name leads to exists. -/
theorem Offers.exists_joinTexts {name : String} (hName : IsPart name)
    (h : Offers tree only directory [name]) : tree.exists? (joinTexts directory name) = true := by
  obtain ⟨place, entry, hLeads, -⟩ := h
  rw [← ofText_joinTexts (writes_part hName)] at hLeads
  rw [FileTree.exists_iff]
  cases entry with
  | directory =>
      exact .inl (FileTree.isDirectory_iff.mpr
        ⟨joinTexts_ne_nil hName.ne_empty, place, hLeads⟩)
  | file content =>
      exact .inr (FileTree.isFile_iff.mpr
        ⟨endsInPart_joinTexts_iff.mpr (endsInPart_name hName), place, content, hLeads⟩)

/-- Names that are seen lead down by an entry each. -/
theorem Offers.length_le {names : List String} (hNames : AreSeen names)
    (h : Offers tree only directory names) : names.length ≤ tree.entries.length + 1 := by
  obtain ⟨place, entry, hLeads, -⟩ := h
  obtain ⟨middle, found, -, hBelow⟩ := FileTree.reaches_append_iff.mp hLeads
  have hLength := FileTree.length_le_of_reaches (fun name hName => (hNames name hName).1) hBelow
  omega

/-- Where nothing but a directory can be, it is one. -/
theorem Offers.leadsTo_here (h : Offers tree true directory []) :
    ∃ place, tree.LeadsTo (Path.ofText directory) place .directory := by
  obtain ⟨place, entry, hLeads, hOnly⟩ := h
  obtain rfl := hOnly rfl
  exact ⟨place, by simpa using hLeads⟩

/-- The parts that a name of a pattern goes on by. One that is no step goes on by none. -/
def Segment.Covers (segment : Segment) (taken : List String) : Prop :=
  if segment.isStep then segment.Takes taken else taken = []

theorem Segment.covers_of_isStep {segment : Segment} (hStep : segment.isStep = true)
    (taken : List String) : segment.Covers taken ↔ segment.Takes taken := by
  rw [Covers, if_pos hStep]

theorem Segment.covers_of_not_isStep {segment : Segment} (hStep : ¬segment.isStep = true)
    (taken : List String) : segment.Covers taken ↔ taken = [] := by
  rw [Covers, if_neg hStep]

/-- What a name of a pattern selects writes parts that it covers. -/
theorem writes_of_mem_select (hTree : tree.HasNames) {segment : Segment}
    (hWritten : segment.IsWritten) (h : text ∈ segment.select tree only directory) :
    ∃ taken, Writes text taken ∧ segment.Covers taken ∧
      (taken = [] → joinTexts directory text = "" ∨
        tree.isDirectory (joinTexts directory text) = true) := by
  cases segment with
  | close =>
      obtain ⟨rfl, hDirectory⟩ := mem_select_close_iff.mp h
      obtain ⟨-, place, hPlace⟩ := FileTree.isDirectory_iff.mp hDirectory
      exact ⟨[], writes_nothing, rfl, fun _ => isDirectory_of_stays writes_nothing hPlace⟩
  | plain name =>
      obtain ⟨rfl, hExists⟩ := mem_select_plain_iff.mp h
      by_cases hStep : (Segment.plain text).isStep = true
      · exact ⟨[text], writes_part (isPart_of_plain hWritten hStep),
          (Segment.covers_of_isStep hStep _).mpr rfl,
          fun hNone => absurd hNone (List.cons_ne_nil _ _)⟩
      · obtain rfl : text = "." := by simpa [Segment.isStep] using hStep
        exact ⟨[], writes_here, (Segment.covers_of_not_isStep hStep _).mpr rfl,
          fun _ => .inr (isDirectory_of_exists_here hExists)⟩
  | wild pattern =>
      obtain ⟨hName, hHidden, hAdmits⟩ := mem_select_wild_iff.mp h
      obtain ⟨hName, -⟩ := (mem_namesIn_iff hTree).mp hName
      exact ⟨[text], writes_part hName.toIsPart, ⟨text, rfl, hName, hHidden, hAdmits⟩,
        fun hNone => absurd hNone (List.cons_ne_nil _ _)⟩
  | deep =>
      rcases mem_select_deep_iff.mp h with ⟨rfl, hHere⟩ | hBelow
      · have hNone : AreSeen [] := List.forall_mem_nil _
        refine ⟨[], writes_nothing, hNone, fun _ => ?_⟩
        rcases hHere with rfl | hDirectory
        · exact .inl rfl
        · obtain ⟨-, place, hPlace⟩ := FileTree.isDirectory_iff.mp hDirectory
          exact isDirectory_of_stays writes_nothing hPlace
      · obtain ⟨names, hSome, hWrites, hNames⟩ := writes_of_mem_namesBelow hTree hBelow
        exact ⟨names, hWrites, hNames, fun hNone => absurd hNone hSome⟩

/-- A name of a pattern selects all that it covers and that leads somewhere. -/
theorem exists_mem_select (hTree : tree.HasNames) {segment : Segment}
    (hWritten : segment.IsWritten) (hOpen : segment ≠ .close) {taken : List String}
    (hTaken : segment.Covers taken) (hDirectory : taken = [] → only = true)
    (h : Offers tree only directory taken) :
    ∃ text ∈ segment.select tree only directory, Writes text taken := by
  cases segment with
  | close => exact absurd rfl hOpen
  | plain name =>
      by_cases hStep : (Segment.plain name).isStep = true
      · obtain rfl := (Segment.covers_of_isStep hStep taken).mp hTaken
        have hPart := isPart_of_plain hWritten hStep
        exact ⟨name, mem_select_plain_iff.mpr ⟨rfl, h.exists_joinTexts hPart⟩, writes_part hPart⟩
      · obtain rfl : name = "." := by simpa [Segment.isStep] using hStep
        obtain rfl := (Segment.covers_of_not_isStep hStep taken).mp hTaken
        obtain rfl := hDirectory rfl
        obtain ⟨place, hPlace⟩ := h.leadsTo_here
        have hHere := (isDirectory_of_stays writes_here hPlace).resolve_left
          (joinTexts_ne_nil (by decide))
        exact ⟨".", mem_select_plain_iff.mpr ⟨rfl, FileTree.exists_iff.mpr (.inl hHere)⟩,
          writes_here⟩
  | wild pattern =>
      obtain ⟨name, rfl, hName, hHidden, hAdmits⟩ := hTaken
      have hListed := (mem_namesIn_iff hTree).mpr ⟨hName, h⟩
      exact ⟨name, mem_select_wild_iff.mpr ⟨hListed, hHidden, hAdmits⟩, writes_part hName.toIsPart⟩
  | deep =>
      by_cases hNone : taken = []
      · subst hNone
        obtain rfl := hDirectory rfl
        obtain ⟨place, hPlace⟩ := h.leadsTo_here
        refine ⟨"", mem_select_deep_iff.mpr (.inl ⟨rfl, ?_⟩), writes_nothing⟩
        by_cases hEmpty : directory = ""
        · exact .inl hEmpty
        · exact .inr (FileTree.isDirectory_iff.mpr ⟨hEmpty, place, hPlace⟩)
      · have hSeen : AreSeen taken := hTaken
        obtain ⟨text, hText, hWrites⟩ :=
          exists_mem_namesBelow hTree hNone (h.length_le hSeen) hSeen h
        exact ⟨text, mem_select_deep_iff.mpr (.inr hText), hWrites⟩

/-! All names of a pattern. -/

section Steps

variable {segment last : Segment} {rest segments : List Segment}

/-- A pattern that ends in a step has steps. -/
theorem filter_isStep_ne_nil (hLast : segments.getLast? = some last)
    (hStep : last.isStep = true) : segments.filter Segment.isStep ≠ [] := fun hNone =>
  List.filter_eq_nil_iff.mp hNone last (List.mem_of_getLast? hLast) hStep

/-- The first name covers the first parts, and the other steps stand for those that are
left. -/
theorem matches_filter_cons_iff (hSteps : rest.filter Segment.isStep ≠ []) {parts : List String} :
    Matches ((segment :: rest).filter Segment.isStep) parts ↔
      ∃ taken left, parts = taken ++ left ∧ segment.Covers taken ∧
        Matches (rest.filter Segment.isStep) left := by
  by_cases hStep : segment.isStep = true
  · simp only [List.filter_cons_of_pos hStep, Matches, Segment.covers_of_isStep hStep]
    constructor
    · rintro ⟨taken, left, rfl, hTaken, hLeft, -⟩
      exact ⟨taken, left, rfl, hTaken, hLeft⟩
    · rintro ⟨taken, left, rfl, hTaken, hLeft⟩
      exact ⟨taken, left, rfl, hTaken, hLeft, fun hNone => absurd hNone hSteps⟩
  · simp only [List.filter_cons_of_neg hStep, Segment.covers_of_not_isStep hStep]
    constructor
    · exact fun h => ⟨[], parts, rfl, rfl, h⟩
    · rintro ⟨taken, left, rfl, rfl, hLeft⟩
      exact hLeft

end Steps

/-- What names of a pattern select has a path that they stand for, unless it is nothing
or a directory. -/
theorem matches_of_mem_selectAll (hTree : tree.HasNames) {segments : List Segment}
    (hSome : segments ≠ []) (hWritten : ∀ segment ∈ segments, segment.IsWritten)
    {directories : List String} (h : text ∈ selectAll tree directories segments) :
    ∃ directory ∈ directories, ∃ parts,
      Path.ofText text = (Path.ofText directory).below parts ∧
      (text = "" ∨ tree.isDirectory text = true ∨
        (Matches (segments.filter Segment.isStep) parts ∧
          ∃ last, segments.getLast? = some last ∧ last.isStep = true)) := by
  induction segments generalizing directories with
  | nil => exact absurd rfl hSome
  | cons segment rest ih =>
      obtain ⟨hFirst, hOthers⟩ := List.forall_mem_cons.mp hWritten
      rw [selectAll] at h
      by_cases hRest : rest = []
      · subst hRest
        obtain ⟨directory, hDirectory, hText⟩ := List.mem_flatMap.mp h
        obtain ⟨name, hName, rfl⟩ := List.mem_map.mp hText
        obtain ⟨taken, hWrites, hTaken, hNothing⟩ := writes_of_mem_select hTree hFirst hName
        refine ⟨directory, hDirectory, taken, ofText_joinTexts hWrites, ?_⟩
        by_cases hNone : taken = []
        · exact (hNothing hNone).imp_right .inl
        · have hStep : segment.isStep = true := by
            by_contra hNo
            exact hNone ((Segment.covers_of_not_isStep hNo taken).mp hTaken)
          refine .inr (.inr ⟨?_, segment, rfl, hStep⟩)
          rw [List.filter_cons_of_pos hStep]
          rw [Segment.covers_of_isStep hStep] at hTaken
          exact ⟨taken, [], (List.append_nil _).symm, hTaken, rfl, fun _ => hNone⟩
      · obtain ⟨reached, hReached, parts, hText, hKind⟩ := ih hRest hOthers h
        obtain ⟨directory, hDirectory, hJoined⟩ := List.mem_flatMap.mp hReached
        obtain ⟨name, hName, rfl⟩ := List.mem_map.mp hJoined
        obtain ⟨taken, hWrites, hTaken, -⟩ := writes_of_mem_select hTree hFirst hName
        refine ⟨directory, hDirectory, taken ++ parts, ?_, ?_⟩
        · rw [hText, selected, ofText_joinTexts hWrites, below_below]
        · refine hKind.imp_right (Or.imp_right ?_)
          rintro ⟨hMatches, last, hLast, hStep⟩
          have hEnd : (segment :: rest).getLast? = some last := by
            rw [List.getLast?_cons, hLast]
            rfl
          exact ⟨(matches_filter_cons_iff (filter_isStep_ne_nil hLast hStep)).mpr
            ⟨taken, parts, rfl, hTaken, hMatches⟩, last, hEnd, hStep⟩

/-- Names of a pattern select all that they stand for and that is there. -/
theorem exists_mem_selectAll (hTree : tree.HasNames) {segments : List Segment}
    (hWritten : ∀ segment ∈ segments, segment.IsWritten)
    (hOpen : ∀ segment ∈ segments, segment ≠ .close)
    (hLast : ∃ last, segments.getLast? = some last ∧ last.isStep = true)
    {directories : List String} (hDirectory : directory ∈ directories) {parts : List String}
    (hMatches : Matches (segments.filter Segment.isStep) parts)
    (h : Offers tree false directory parts) :
    ∃ text ∈ selectAll tree directories segments,
      Path.ofText text = (Path.ofText directory).below parts := by
  induction segments generalizing directories directory parts with
  | nil =>
      obtain ⟨last, hNone, -⟩ := hLast
      cases hNone
  | cons segment rest ih =>
      obtain ⟨hFirst, hOthers⟩ := List.forall_mem_cons.mp hWritten
      obtain ⟨hFirstOpen, hOthersOpen⟩ := List.forall_mem_cons.mp hOpen
      obtain ⟨last, hEnd, hStep⟩ := hLast
      rw [selectAll]
      by_cases hRest : rest = []
      · subst hRest
        obtain rfl : segment = last := by simpa using hEnd
        rw [List.filter_cons_of_pos hStep] at hMatches
        obtain ⟨taken, left, rfl, hTaken, hLeft, hSome⟩ := hMatches
        obtain rfl : left = [] := hLeft
        rw [List.append_nil] at h ⊢
        obtain ⟨name, hName, hWrites⟩ := exists_mem_select hTree hFirst hFirstOpen
          ((Segment.covers_of_isStep hStep taken).mpr hTaken)
          (fun hNone => absurd hNone (hSome rfl)) h
        exact ⟨_, List.mem_flatMap.mpr ⟨directory, hDirectory, List.mem_map_of_mem hName⟩,
          ofText_joinTexts hWrites⟩
      · have hEnd : rest.getLast? = some last := by
          rwa [← List.getLast?_cons_of_ne_nil hRest]
        have hSteps := filter_isStep_ne_nil hEnd hStep
        obtain ⟨taken, left, rfl, hTaken, hLeft⟩ := (matches_filter_cons_iff hSteps).mp hMatches
        have hGoesOn : Offers tree (!rest.isEmpty) directory taken := by
          obtain ⟨place, hPlace⟩ := h.leadsTo_directory (hLeft.ne_nil hSteps)
          exact ⟨place, .directory, hPlace, fun _ => rfl⟩
        obtain ⟨name, hName, hWrites⟩ := exists_mem_select hTree hFirst hFirstOpen hTaken
          (fun _ => by simp [hRest]) hGoesOn
        have hReached : joinTexts directory name ∈ directories.flatMap fun directory =>
            (segment.select tree (!rest.isEmpty) directory).map (selected directory) :=
          List.mem_flatMap.mpr ⟨directory, hDirectory, List.mem_map.mpr ⟨name, hName, rfl⟩⟩
        obtain ⟨text, hText, hPath⟩ := ih hOthers hOthersOpen ⟨last, hEnd, hStep⟩ hReached hLeft
          (h.of_append hWrites)
        refine ⟨text, hText, ?_⟩
        rw [hPath, ofText_joinTexts hWrites, below_below]

end SchemaModels.Glob
