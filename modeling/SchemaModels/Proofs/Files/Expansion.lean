import SchemaModels.Proofs.Files.Search

/-!
The files that a pattern selects. The text of a pattern is searched from the last
directory in front of its first wildcard on, which does not matter for what it stands
for: names without wildcards stand for themselves.
-/
namespace SchemaModels.Glob

open SchemaModels.Path (IsName IsPart EndsInPart)

/-- A directory without the separators at its end is the same directory. -/
theorem ofText_trimDirectory (chars : List Char) :
    Path.ofText (trimDirectory chars) = ⟨Path.startOf chars, Path.partsOf chars⟩ := by
  obtain ⟨count, hCount⟩ : ∃ count,
      chars = (chars.reverse.dropWhile (· == '/')).reverse ++ List.replicate count '/' := by
    have hEnd : chars.reverse.takeWhile (· == '/') =
        List.replicate (chars.reverse.takeWhile (· == '/')).length '/' := by
      rw [List.eq_replicate_iff]
      exact ⟨rfl, fun c hc => by simpa using List.mem_takeWhile_imp hc⟩
    refine ⟨(chars.reverse.takeWhile (· == '/')).length, ?_⟩
    have hSplit := congrArg List.reverse
      (List.takeWhile_append_dropWhile (p := (· == '/')) (l := chars.reverse))
    rw [List.reverse_append, List.reverse_reverse, hEnd, List.reverse_replicate] at hSplit
    exact hSplit.symm
  rw [trimDirectory]
  generalize hTrimmed : (chars.reverse.dropWhile (· == '/')).reverse = trimmed at hCount ⊢
  by_cases hNone : trimmed = []
  · rw [if_pos (by simpa using hNone), Path.ofText, String.toList_ofList]
  · have hOther : ∃ c ∈ trimmed, c ≠ '/' := by
      have hSome : chars.reverse.dropWhile (· == '/') ≠ [] := by
        rw [← hTrimmed] at hNone
        simpa using hNone
      refine ⟨(chars.reverse.dropWhile (· == '/')).head hSome, ?_, ?_⟩
      · rw [← hTrimmed, List.mem_reverse]
        exact List.head_mem hSome
      · simpa using List.head_dropWhile_not (· == '/') hSome
    have hStart : Path.startOf chars = Path.startOf trimmed := by
      rw [hCount]
      exact Path.startOf_append (.inl hOther)
    have hParts : Path.partsOf chars = Path.partsOf trimmed := by
      rw [hCount]
      exact Path.partsOf_separators trimmed count
    rw [if_neg (by simpa using hNone), Path.ofText, String.toList_ofList, hStart, hParts]

/-- What stands in front of the last separator, with it, and what follows. -/
theorem splitDirectory_spec (chars : List Char) :
    (splitDirectory chars).1 ++ (splitDirectory chars).2 = chars ∧
      '/' ∉ (splitDirectory chars).2 ∧
      ((splitDirectory chars).1 = [] ∨ ∃ before, (splitDirectory chars).1 = before ++ ['/']) := by
  induction chars with
  | nil => exact ⟨rfl, List.not_mem_nil, .inl rfl⟩
  | cons c rest ih =>
      obtain ⟨hAll, hBack, hFront⟩ := ih
      rw [splitDirectory]
      dsimp only
      have hOn : (c :: (splitDirectory rest).1) ++ (splitDirectory rest).2 = c :: rest :=
        congrArg (c :: ·) hAll
      split
      · rename_i hc
        refine ⟨hOn, hBack, .inr ?_⟩
        rcases hFront with hNone | ⟨before, hBefore⟩
        · exact ⟨[], by rw [hNone, hc]; rfl⟩
        · exact ⟨c :: before, by rw [hBefore]; rfl⟩
      · rename_i hc
        split
        · rename_i hNone
          rw [List.isEmpty_iff] at hNone
          rw [hNone, List.nil_append] at hAll
          refine ⟨congrArg (c :: ·) hAll, ?_, .inl rfl⟩
          rw [List.mem_cons, not_or]
          exact ⟨Ne.symm hc, hBack⟩
        · rename_i hSome
          refine ⟨hOn, hBack, .inr ?_⟩
          rcases hFront with hNone | ⟨before, hBefore⟩
          · exact absurd (List.isEmpty_iff.mpr hNone) hSome
          · exact ⟨c :: before, by rw [hBefore]; rfl⟩

/-- A text behind a directory whose names have no wildcard. -/
structure StartsIn (text directory : String) (rest : List Char) : Prop where
  path : Path.ofText text = (Path.ofText directory).below (Path.partsOf rest)
  ends : EndsInPart text.toList ↔ EndsInPart rest
  plain : ∀ part ∈ (Path.ofText directory).parts, hasWildcard part = false

theorem exists_startsIn {text : String} (h : hasWildcard text = true) :
    ∃ directory rest, Pattern.ofText text = .below directory (segmentsOf rest) ∧
      StartsIn text directory rest := by
  let isWild (c : Char) : Bool := c == '*' || c == '?' || c == '['
  let front := text.toList.takeWhile (!isWild ·)
  let back := text.toList.dropWhile (!isWild ·)
  obtain ⟨hAll, hStarted, hDirectory⟩ := splitDirectory_spec front
  refine ⟨trimDirectory (splitDirectory front).1, (splitDirectory front).2 ++ back, ?_, ?_⟩
  · rw [Pattern.ofText, if_neg (by simp [h])]
  have hText : text.toList = (splitDirectory front).1 ++ ((splitDirectory front).2 ++ back) := by
    rw [← List.append_assoc, hAll]
    exact (List.takeWhile_append_dropWhile).symm
  have hFront : ∀ c ∈ (splitDirectory front).1, isWild c = false := by
    intro c hc
    have hMember : c ∈ front := hAll ▸ List.mem_append_left _ hc
    simpa using List.mem_takeWhile_imp hMember
  have hHead : ((splitDirectory front).2 ++ back).head? ≠ some '/' := by
    cases hBack : (splitDirectory front).2 with
    | nil =>
        rw [List.nil_append]
        intro hHead
        have hNot := List.head?_dropWhile_not (!isWild ·) text.toList
        rw [show (text.toList.dropWhile (!isWild ·)).head? = some '/' from hHead] at hNot
        simp [isWild] at hNot
    | cons c rest =>
        rw [hBack, List.mem_cons, not_or] at hStarted
        simpa using Ne.symm hStarted.1
  generalize (splitDirectory front).1 = directory at *
  generalize (splitDirectory front).2 ++ back = rest at *
  constructor
  · rw [ofText_trimDirectory, Path.ofText, Path.below, hText, Path.startOf_append (.inr hHead)]
    rcases hDirectory with rfl | ⟨before, rfl⟩
    · rfl
    · rw [List.append_assoc, List.singleton_append, Path.partsOf_append, Path.partsOf_append,
        Path.partsOf_nil, List.append_nil]
  · rw [hText]
    rcases hDirectory with rfl | ⟨before, rfl⟩
    · rfl
    · rw [List.append_assoc, List.singleton_append]
      exact Path.endsInPart_append_iff
  · intro part hPart
    rw [ofText_trimDirectory] at hPart
    rw [hasWildcard, List.any_eq_false]
    intro c hc
    rw [Bool.not_eq_true]
    exact hFront c (Path.mem_of_mem_partsOf hPart hc)

variable {tree : FileTree}

theorem mem_expansion_iff_expand {text : String} {path : Path} :
    path ∈ expansion tree text ↔ ∃ found ∈ expand tree text, Path.ofText found = path := by
  rw [expansion, List.mem_map]
  simp only [List.mem_mergeSort]

/-- A text without wildcards selects itself if it is there, as a directory if it ends in a
separator. -/
theorem mem_expand_literal_iff {text found : String} (hWild : hasWildcard text = false) :
    found ∈ expand tree text ↔ found = text ∧ tree.exists? text = true ∧
      (text.endsWith "/" = true → tree.isDirectory text = true) := by
  have hPattern : Pattern.ofText text = .literal text := by
    rw [Pattern.ofText, if_pos (by simp [hWild])]
  have hDirectory (h : tree.isDirectory text = true) : tree.exists? text = true :=
    FileTree.exists_iff.mpr (.inl h)
  rw [expand, hPattern]
  dsimp only
  split_ifs <;> simp_all

/-- A text with wildcards selects what its names select from their directory on. -/
theorem mem_expand_below_iff {text found directory : String} {segments : List Segment}
    (hPattern : Pattern.ofText text = .below directory segments) :
    found ∈ expand tree text ↔ found ∈ selectAll tree [directory] segments ∧ found ≠ "" := by
  rw [expand, hPattern, List.mem_filter, bne_iff_ne]

/-- A path does not lead to a file and to a directory. -/
theorem not_directory_of_file {path : Path} {place : List String} {content : List UInt8}
    (h : tree.LeadsTo path place (.file content)) (other : List String) :
    ¬tree.LeadsTo path other .directory := by
  intro hOther
  cases (FileTree.Reaches.unique h hOther).2

section Files

variable {text : String} {path : Path} {place : List String} {content : List UInt8}

/-- A text without wildcards selects the file that it names. -/
theorem mem_expansion_literal_iff (hWild : hasWildcard text = false)
    (hLeads : tree.LeadsTo path place (.file content)) :
    path ∈ expansion tree text ↔ path.start = (Path.ofText text).start ∧
      EndsInPart text.toList ∧ Matches (steps text) path.parts := by
  have hExact : Matches (steps text) path.parts ↔ path.parts = (Path.ofText text).parts := by
    have hPlain : ∀ name ∈ Path.partsOf text.toList, ∀ taken,
        (Segment.ofName name).Takes taken ↔ taken = [name] := by
      intro name hName
      refine takes_plain (Path.isPart_of_mem_partsOf hName).ne_empty ?_
      rw [hasWildcard, List.any_eq_false] at hWild ⊢
      exact fun c hc => hWild c (Path.mem_of_mem_partsOf hName hc)
    rw [steps, ← List.append_nil (List.map _ _), matches_append_iff hPlain]
    simp [Matches, Path.ofText]
  simp only [mem_expansion_iff_expand, hExact, mem_expand_literal_iff hWild]
  constructor
  · rintro ⟨found, ⟨rfl, hExists, -⟩, rfl⟩
    refine ⟨rfl, ?_, rfl⟩
    rcases FileTree.exists_iff.mp hExists with hDirectory | hFile
    · obtain ⟨-, there, hThere⟩ := FileTree.isDirectory_iff.mp hDirectory
      exact absurd hThere (not_directory_of_file hLeads there)
    · exact (FileTree.isFile_iff.mp hFile).1
  · rintro ⟨hStart, hEnds, hParts⟩
    have hSame : Path.ofText text = path := by
      cases path
      cases hStart
      cases hParts
      rfl
    have hExists : tree.exists? text = true := by
      rw [FileTree.exists_iff, FileTree.isFile_iff, hSame]
      exact .inr ⟨hEnds, place, content, hLeads⟩
    exact ⟨text, ⟨rfl, hExists, fun hEnd => absurd hEnd hEnds.not_endsWith⟩, hSame⟩

/-- A text with wildcards selects files from the directory in front of them on. -/
theorem mem_expansion_wild_iff (hTree : tree.HasNames) (hWild : hasWildcard text = true)
    (hSome : path.parts ≠ []) (hLeads : tree.LeadsTo path place (.file content)) :
    path ∈ expansion tree text ↔ path.start = (Path.ofText text).start ∧
      EndsInPart text.toList ∧ Matches (steps text) path.parts := by
  obtain ⟨directory, rest, hPattern, hStarts⟩ := exists_startsIn hWild
  have hSteps : steps text = (Path.ofText directory).parts.map Segment.ofName ++
      (segmentsOf rest).filter Segment.isStep := by
    rw [filter_segmentsOf, ← List.map_append]
    exact congrArg _ (congrArg Path.parts hStarts.path)
  have hPlain : ∀ name ∈ (Path.ofText directory).parts, ∀ taken,
      (Segment.ofName name).Takes taken ↔ taken = [name] := fun name hName =>
    takes_plain (Path.isNormal_ofText directory name hName).ne_empty (hStarts.plain name hName)
  have hStart : (Path.ofText text).start = (Path.ofText directory).start := by
    rw [hStarts.path]
    rfl
  rw [mem_expansion_iff_expand, hSteps, matches_append_iff hPlain, hStart, hStarts.ends]
  simp only [mem_expand_below_iff hPattern]
  constructor
  · rintro ⟨found, ⟨hFound, hNonempty⟩, rfl⟩
    have hNames : segmentsOf rest ≠ [] := by
      rw [Ne, ← List.getLast?_eq_none_iff, getLast?_segmentsOf,
        List.getLast?_eq_some_getLast (Path.namesOf_ne_nil rest)]
      simp
    obtain ⟨other, hOther, parts, hParts, hKind⟩ := matches_of_mem_selectAll hTree hNames
      (fun _ hSegment => isWritten_of_mem_segmentsOf hSegment) hFound
    obtain rfl := List.mem_singleton.mp hOther
    rw [hParts]
    rcases hKind with hEmpty | hDirectory | ⟨hMatches, hLast⟩
    · exact absurd hEmpty hNonempty
    · obtain ⟨-, there, hThere⟩ := FileTree.isDirectory_iff.mp hDirectory
      exact absurd hThere (not_directory_of_file hLeads there)
    · exact ⟨rfl, endsInStep_iff.mp hLast, parts, rfl, hMatches⟩
  · rintro ⟨hSame, hEnds, left, hLeft, hMatches⟩
    have hBelow : (Path.ofText directory).below left = path := by
      rw [Path.below, ← hSame, ← hLeft]
    obtain ⟨found, hFound, hText⟩ := exists_mem_selectAll hTree
      (fun _ hSegment => isWritten_of_mem_segmentsOf hSegment)
      (fun _ hSegment => ne_close_of_mem_segmentsOf hEnds hSegment) (endsInStep_iff.mpr hEnds)
      (List.mem_singleton_self directory) hMatches
      ⟨place, .file content, hBelow ▸ hLeads, fun hNo => by cases hNo⟩
    refine ⟨found, ⟨hFound, ?_⟩, hText.trans hBelow⟩
    rintro rfl
    rw [hBelow] at hText
    rw [← hText] at hSome
    exact hSome rfl

/-- A pattern selects exactly the files whose paths it stands for. A pattern that does
not end in a part asks for directories and selects no files. -/
theorem mem_expansion_iff (hTree : tree.HasNames) (hPath : path.IsNormal)
    (hFile : tree.isFile path.text = true) :
    path ∈ expansion tree text ↔ path.start = (Path.ofText text).start ∧
      EndsInPart text.toList ∧ Matches (steps text) path.parts := by
  obtain ⟨hSome, place, content, hLeads⟩ := (FileTree.isFile_text_iff hPath).mp hFile
  by_cases hWild : hasWildcard text = true
  · exact mem_expansion_wild_iff hTree hWild hSome hLeads
  · exact mem_expansion_literal_iff (by simpa using hWild) hLeads

end Files

end SchemaModels.Glob
