import Mathlib
import SchemaModels.Project.Config
import SchemaModels.Proofs.Introspection.Listing

/-!
Patterns of a project, seen from its directory. The path of the directory becomes a
part of the pattern, so its names are read as patterns too. If they stand for
themselves only, a pattern selects below the directory what it selects in it.
-/
namespace SchemaModels

namespace Glob

/-- No character of a name stands for others. A bracket that is not closed stands for
itself. -/
def IsLiteral (name : String) : Prop := pieces name.toList = name.toList.map .char

theorem foldl_leftBehind_nil (chars : List Char) :
    (chars.map Piece.char).foldl (fun left piece => leftBehind piece left) [] = [] := by
  induction chars with
  | nil => rfl
  | cons c rest ih => exact ih

/-- Characters that stand for themselves stand for one name. -/
theorem admits_chars_iff (chars name : List Char) :
    admits (chars.map .char) name = true ↔ name = chars := by
  induction chars generalizing name with
  | nil => simp [admits]
  | cons c rest ih =>
      rw [admits, List.map_cons, List.foldl_cons]
      cases name with
      | nil =>
          have hLeft : leftBehind (.char c) [[]] = [] := rfl
          rw [hLeft, foldl_leftBehind_nil]
          simp
      | cons d others =>
          by_cases hSame : d = c
          · have hLeft : leftBehind (.char c) [d :: others] = [others] := by
              simp [leftBehind, Piece.admits, hSame]
            rw [hLeft, ← admits, ih, hSame, List.cons_inj_right]
          · have hLeft : leftBehind (.char c) [d :: others] = [] := by
              simp [leftBehind, Piece.admits, hSame]
            rw [hLeft, foldl_leftBehind_nil]
            simp [hSame]

/-- A literal name stands for itself only. -/
theorem takes_literal {name : String} (hName : Path.IsPart name) (h : IsLiteral name)
    (taken : List String) : (Segment.ofName name).Takes taken ↔ taken = [name] := by
  by_cases hWild : hasWildcard name = true
  · have hDeep : name ≠ "**" := by
      rintro rfl
      exact absurd h (by rw [IsLiteral]; cbv; simp)
    have hUp : name ≠ ".." := by
      rintro rfl
      exact absurd hWild (by decide)
    have hSegment : Segment.ofName name = .wild name := by
      rw [Segment.ofName, if_neg (by simpa using hName.ne_empty), if_neg (by simpa using hDeep),
        if_pos hWild]
    rw [hSegment, Segment.Takes, h]
    simp only [admits_chars_iff, String.toList_inj]
    constructor
    · rintro ⟨other, rfl, -, -, rfl⟩
      rfl
    · rintro rfl
      exact ⟨name, rfl, ⟨hName, hUp⟩, id, rfl⟩
  · exact takes_plain hName.ne_empty (by simpa using hWild) taken

end Glob

namespace FileTree

variable {tree : FileTree} {place target : List String} {entry : Entry}

theorem at?_working (working place : List String) :
    FileTree.at? { tree with working := working } place = tree.at? place := by
  cases place with
  | nil => rfl
  | cons name rest => rfl

/-- Where a way leads does not depend on the working directory. -/
theorem reaches_working_iff {names : List String} (working : List String) :
    FileTree.Reaches { tree with working := working } place names target entry ↔
      tree.Reaches place names target entry := by
  induction names generalizing place with
  | nil => rw [reaches_nil_iff, reaches_nil_iff, at?_working]
  | cons name rest ih => rw [reaches_cons_iff, reaches_cons_iff, at?_working, ih]

/-- In a directory of a tree the names can be written in a path as in the tree. -/
theorem HasNames.inside (hTree : tree.HasNames) (hAt : tree.at? place = some entry) :
    FileTree.HasNames { tree with working := place } := by
  refine ⟨hTree.entries, ?_⟩
  intro name hName
  have hSome : place ≠ [] := List.ne_nil_of_mem hName
  obtain ⟨found, hFound⟩ := (at?_isSome_iff hSome).mp ⟨entry, hAt⟩
  exact hTree.entries _ hFound name hName

/-- Below a directory a path leads where it leads in that directory. -/
theorem leadsTo_below_iff {root : Path} (hRoot : tree.LeadsTo root place .directory)
    {names : List String} :
    tree.LeadsTo (root.below names) target entry ↔
      FileTree.LeadsTo { tree with working := place } ⟨.relative, names⟩ target entry := by
  rw [LeadsTo, LeadsTo, reaches_working_iff place, Path.below, reaches_append_iff]
  constructor
  · rintro ⟨middle, found, hMiddle, hNames⟩
    obtain ⟨rfl, -⟩ := Reaches.unique hRoot hMiddle
    exact hNames
  · intro hNames
    exact ⟨place, .directory, hRoot, hNames⟩

end FileTree

namespace Config

open SchemaModels.Path (EndsInPart)

variable {tree : FileTree} {root : Path} {place : List String} {pattern : String}

/-- The tree as it is seen from one of its directories. -/
abbrev inside (tree : FileTree) (place : List String) : FileTree :=
  { tree with working := place }

theorem start_of_relative (h : pattern.startsWith "/" = false) :
    (Path.ofText pattern).start = .relative := by
  refine Path.startOf_eq_relative_iff.mpr fun hHead => ?_
  rw [FileTree.startsWith_separator_iff.mpr hHead] at h
  cases h

theorem rooted_relative (h : pattern.startsWith "/" = false) :
    rooted root pattern = (root.below (Path.ofText pattern).parts).text := by
  have hRelative : ¬(Path.ofText pattern).isAbsolute = true := by
    rw [Path.isAbsolute, start_of_relative h]
    decide
  rw [rooted, if_neg (by simp [h]), Path.join, if_neg hRelative]
  rfl

/-- What a pattern of a project stands for: the names of the directory are read as
patterns. A separator or a point at the end is lost. -/
theorem standsFor_rooted_iff (hRoot : root.IsNormal) (h : pattern.startsWith "/" = false)
    {path : Path} (hSome : path.parts ≠ []) :
    StandsFor (rooted root pattern) path ↔ path.start = root.start ∧
      Glob.Matches ((root.parts ++ (Path.ofText pattern).parts).map Glob.Segment.ofName)
        path.parts := by
  have hNormal := hRoot.below (Path.isNormal_ofText pattern)
  rw [StandsFor, Glob.steps, rooted_relative h, Path.ofText_text hNormal,
    Path.partsOf_text hNormal]
  constructor
  · rintro ⟨hStart, -, hMatches⟩
    exact ⟨hStart, hMatches⟩
  · rintro ⟨hStart, hMatches⟩
    refine ⟨hStart, Path.endsInPart_text hNormal ?_, hMatches⟩
    intro hNone
    rw [show root.parts ++ (Path.ofText pattern).parts = [] from hNone] at hMatches
    exact hSome hMatches

/-- A pattern of a project selects all files, wherever they are, that its directory and
the pattern stand for together. -/
theorem mem_rooted_iff (hTree : tree.HasNames) (hRoot : root.IsNormal)
    (h : pattern.startsWith "/" = false) (path : Path) :
    path ∈ schemaFiles tree [rooted root pattern] ↔
      path.IsNormal ∧ tree.isFile path.text = true ∧ path.start = root.start ∧
        Glob.Matches ((root.parts ++ (Path.ofText pattern).parts).map Glob.Segment.ofName)
          path.parts := by
  rw [mem_schemaFiles_iff_standsFor hTree]
  simp only [List.mem_singleton, exists_eq_left]
  refine and_congr_right fun hNormal => and_congr_right fun hFile => ?_
  exact standsFor_rooted_iff hRoot h ((FileTree.isFile_text_iff hNormal).mp hFile).1

/-- Below a directory a path names a file if it does in that directory. -/
theorem isFile_below_iff (hRoot : root.IsNormal) (hPlace : tree.LeadsTo root place .directory)
    {names : List String} (hNames : ∀ name ∈ names, Path.IsPart name) :
    tree.isFile (root.below names).text = true ↔
      (inside tree place).isFile (Path.mk .relative names).text = true := by
  rw [FileTree.isFile_text_iff (hRoot.below hNames),
    FileTree.isFile_text_iff (show (Path.mk .relative names).IsNormal from hNames)]
  simp only [FileTree.leadsTo_below_iff hPlace]
  constructor
  · rintro ⟨-, target, content, hLeads⟩
    refine ⟨?_, target, content, hLeads⟩
    rintro rfl
    have hSelf : tree.LeadsTo root target (.file content) := by
      simpa using (FileTree.leadsTo_below_iff hPlace).mpr hLeads
    exact Glob.not_directory_of_file hSelf place hPlace
  · rintro ⟨hSome, hLeads⟩
    exact ⟨List.append_ne_nil_of_right_ne_nil _ hSome, hLeads⟩

/-- Below a directory whose names are literal, a pattern that does not ask for
directories selects what it selects in that directory. -/
theorem mem_rooted_iff_inside (hTree : tree.HasNames) (hRoot : root.IsNormal)
    (hPlace : tree.LeadsTo root place .directory)
    (hLiteral : ∀ name ∈ root.parts, Glob.IsLiteral name)
    (h : pattern.startsWith "/" = false)
    (hEnds : EndsInPart pattern.toList ∨ (Path.ofText pattern).parts = []) (path : Path) :
    path ∈ schemaFiles tree [rooted root pattern] ↔
      ∃ found ∈ schemaFiles (inside tree place) [pattern], path = root.join found := by
  have hExact : ∀ name ∈ root.parts, ∀ taken,
      (Glob.Segment.ofName name).Takes taken ↔ taken = [name] := fun name hName =>
    Glob.takes_literal (hRoot name hName) (hLiteral name hName)
  have hInside := hTree.inside (FileTree.reaches_iff.mp hPlace).2
  rw [mem_rooted_iff hTree hRoot h, List.map_append, Glob.matches_append_iff hExact]
  constructor
  · rintro ⟨hNormal, hFile, hStart, left, hLeft, hMatches⟩
    have hLeftNormal : ∀ name ∈ left, Path.IsPart name := fun name hName =>
      hNormal name (hLeft ▸ List.mem_append_right _ hName)
    have hPath : path = root.below left := by
      rw [Path.below, ← hStart, ← hLeft]
    rw [hPath, isFile_below_iff hRoot hPlace hLeftNormal] at hFile
    refine ⟨⟨.relative, left⟩, ?_, hPath⟩
    rw [mem_schemaFiles_iff_standsFor hInside]
    refine ⟨hLeftNormal, hFile, pattern, List.mem_singleton_self pattern,
      (start_of_relative h).symm, ?_, hMatches⟩
    refine hEnds.resolve_right fun hNone => ?_
    rw [hNone] at hMatches
    exact ((FileTree.isFile_text_iff (show (Path.mk .relative left).IsNormal from
      hLeftNormal)).mp hFile).1 hMatches
  · rintro ⟨found, hFound, rfl⟩
    obtain ⟨hNormal, hFile, other, hOther, hStart, -, hMatches⟩ :=
      (mem_schemaFiles_iff_standsFor hInside).mp hFound
    obtain rfl := List.mem_singleton.mp hOther
    rw [start_of_relative h] at hStart
    obtain ⟨start, names⟩ := found
    obtain rfl : start = .relative := hStart
    have hJoin : root.join ⟨.relative, names⟩ = root.below names := rfl
    rw [hJoin]
    exact ⟨hRoot.below hNormal, (isFile_below_iff hRoot hPlace hNormal).mpr hFile, rfl,
      names, rfl, hMatches⟩

/-- What a project selects is what its patterns select one by one. -/
theorem mem_schemaFiles_toOptions_iff {config : Config} {path : Path} :
    path ∈ schemaFiles tree (config.toOptions root).patterns ↔
      ∃ pattern ∈ config.path, path ∈ schemaFiles tree [rooted root pattern] := by
  have hOne (pattern : String) : path ∈ schemaFiles tree [pattern] ↔
      tree.isFile path.text = true ∧ path ∈ expansion tree pattern := by
    rw [mem_schemaFiles_iff]
    simp
  simp only [hOne, mem_schemaFiles_iff, toOptions, List.mem_map]
  constructor
  · rintro ⟨hFile, _, ⟨pattern, hPattern, rfl⟩, hPath⟩
    exact ⟨pattern, hPattern, hFile, hPath⟩
  · rintro ⟨pattern, hPattern, hFile, hPath⟩
    exact ⟨hFile, _, ⟨pattern, hPattern, rfl⟩, hPath⟩

/-- What the patterns of a project select. Absolute ones stay what they are. The others
select all files that the directory and the pattern stand for together. If the names of
the directory are literal and the pattern does not ask for a directory, these are the
files below the directory that the pattern selects in it, and no others. -/
theorem toOptions_selects (tree : FileTree) (hTree : tree.HasNames) (config : Config)
    (root : Path) (hRoot : root.IsNormal) (place : List String)
    (hLocate : tree.locate root.text = .ok place) (hDirectory : tree.at? place = some .directory) :
    (∀ pattern ∈ config.path, pattern.startsWith "/" = true → rooted root pattern = pattern) ∧
    (∀ pattern ∈ config.path, pattern.startsWith "/" = false → ∀ path : Path,
      path ∈ schemaFiles tree [rooted root pattern] ↔
        path.IsNormal ∧ tree.isFile path.text = true ∧ path.start = root.start ∧
          Glob.Matches ((root.parts ++ (Path.ofText pattern).parts).map Glob.Segment.ofName)
            path.parts) ∧
    ((∀ name ∈ root.parts, Glob.IsLiteral name) →
      (∀ pattern ∈ config.path, pattern.startsWith "/" = false →
        (EndsInPart pattern.toList ∨ (Path.ofText pattern).parts = []) → ∀ path : Path,
        path ∈ schemaFiles tree [rooted root pattern] ↔
          ∃ found ∈ schemaFiles (inside tree place) [pattern], path = root.join found) ∧
      ((∀ pattern ∈ config.path, pattern.startsWith "/" = false →
          EndsInPart pattern.toList ∨ (Path.ofText pattern).parts = []) → ∀ path : Path,
        path ∈ schemaFiles tree (config.toOptions root).patterns ↔
          ∃ pattern ∈ config.path,
            (pattern.startsWith "/" = true ∧ path ∈ schemaFiles tree [pattern]) ∨
            (pattern.startsWith "/" = false ∧
              ∃ found ∈ schemaFiles (inside tree place) [pattern], path = root.join found))) := by
  have hSome : root.text ≠ "" := by
    intro hNone
    rw [hNone] at hLocate
    cases hLocate
  have hPlace : tree.LeadsTo root place .directory := by
    have hLeads := ((FileTree.locate_iff hSome).mp ⟨hLocate, hDirectory⟩).1
    rwa [Path.ofText_text hRoot] at hLeads
  have hAbsolute {pattern : String} (h : pattern.startsWith "/" = true) :
      rooted root pattern = pattern := by
    rw [rooted, if_pos h]
  refine ⟨fun pattern _ => hAbsolute, fun pattern _ h path => mem_rooted_iff hTree hRoot h path,
    fun hLiteral => ⟨?_, ?_⟩⟩
  · intro pattern _ h hEnds path
    exact mem_rooted_iff_inside hTree hRoot hPlace hLiteral h hEnds path
  · intro hEnds path
    rw [mem_schemaFiles_toOptions_iff]
    refine exists_congr fun pattern => and_congr_right fun hPattern => ?_
    cases h : pattern.startsWith "/" with
    | true => simp [hAbsolute h]
    | false =>
        rw [mem_rooted_iff_inside hTree hRoot hPlace hLiteral h (hEnds pattern hPattern h)]
        simp

/-- Two projects, one of them in a directory with brackets in its name. -/
def twoProjects : FileTree :=
  ⟨[(["p[1]"], .directory), (["p[1]", "a"], .file []), (["p1"], .directory),
    (["p1", "b"], .file [])], []⟩

theorem twoProjects_isName {name : String} (h : name ∈ ["p[1]", "p1", "a", "b"]) :
    Path.IsName name := by
  have hAll : ∀ name ∈ ["p[1]", "p1", "a", "b"], Path.IsName name := by decide
  exact hAll name h

theorem twoProjects_hasNames : twoProjects.HasNames := by decide

/-- A directory whose name is literal. -/
theorem literalProject_selects :
    twoProjects.locate (Path.ofText "/p1").text = .ok ["p1"] ∧
      twoProjects.at? ["p1"] = some .directory ∧
      ∀ path : Path, path ∈ schemaFiles twoProjects [rooted (Path.ofText "/p1") "*"] ↔
        ∃ found ∈ schemaFiles (inside twoProjects ["p1"]) ["*"],
          path = (Path.ofText "/p1").join found := by
  have hLocate : twoProjects.locate (Path.ofText "/p1").text = .ok ["p1"] := by
    with_unfolding_all decide
  have hDirectory : twoProjects.at? ["p1"] = some .directory := rfl
  have hSelects := toOptions_selects twoProjects twoProjects_hasNames
    ⟨["*"], "utf-8", none, .plain, none⟩ (Path.ofText "/p1") (Path.isNormal_ofText "/p1")
    ["p1"] hLocate hDirectory
  have hLiteral : ∀ name ∈ (Path.ofText "/p1").parts, Glob.IsLiteral name := by
    intro name hName
    have hParts : (Path.ofText "/p1").parts = ["p1"] := by decide
    rw [hParts] at hName
    obtain rfl := List.mem_singleton.mp hName
    rw [Glob.IsLiteral]
    cbv
  exact ⟨hLocate, hDirectory, (hSelects.2.2 hLiteral).1 "*" (List.mem_singleton_self _)
    (by with_unfolding_all decide) (.inl ⟨"*", by decide, by decide⟩)⟩

/-- A star stands for a name that is not hidden. -/
theorem takes_star {name : String} (hName : Path.IsName name)
    (hSeen : Glob.isHidden name = false)
    (hAdmits : Glob.admits (Glob.pieces "*".toList) name.toList = true) :
    Glob.Matches [.wild "*"] [name] :=
  ⟨[name], [], rfl, ⟨name, rfl, hName, fun hHidden => absurd hHidden (by simp [hSeen]), hAdmits⟩,
    rfl, fun _ => List.cons_ne_nil _ _⟩

/-- The name of a directory with brackets is read as a pattern for another directory:
a file of that one is selected, and the file that the pattern selects in the directory
is not. A separator at the end of a pattern, which asks for a directory, is lost. -/
theorem bracketProject_elsewhere :
    (Path.ofText "/p1/b" ∈ schemaFiles twoProjects [rooted (Path.ofText "/p[1]") "*"] ∧
      Path.ofText "a" ∈ schemaFiles (inside twoProjects ["p[1]"]) ["*"] ∧
      (Path.ofText "/p[1]").join (Path.ofText "a") ∉
        schemaFiles twoProjects [rooted (Path.ofText "/p[1]") "*"]) ∧
    schemaFiles twoProjects [rooted (Path.ofText "/p1") "b/"] = [Path.ofText "/p1/b"] ∧
      schemaFiles (inside twoProjects ["p1"]) ["b/"] = [] := by
  have hRelative : "*".startsWith "/" = false := by with_unfolding_all decide
  have hBracket : Glob.admits (Glob.pieces "p[1]".toList) "p1".toList = true ∧
      Glob.admits (Glob.pieces "p[1]".toList) "p[1]".toList = false := by
    constructor <;> cbv
  have hSteps : ((Path.ofText "/p[1]").parts ++ (Path.ofText "*").parts).map
      Glob.Segment.ofName = [.wild "p[1]", .wild "*"] := by
    with_unfolding_all decide
  have hMember := mem_rooted_iff twoProjects_hasNames (Path.isNormal_ofText "/p[1]") hRelative
  rw [hSteps] at hMember
  refine ⟨⟨?_, ?_, ?_⟩, by with_unfolding_all decide, by with_unfolding_all decide⟩
  · rw [hMember]
    refine ⟨Path.isNormal_ofText _, by with_unfolding_all decide, by decide, ["p1"], ["b"],
      by decide,
      ⟨"p1", rfl, twoProjects_isName (by decide), by with_unfolding_all decide, hBracket.1⟩,
      takes_star (twoProjects_isName (by decide)) (by with_unfolding_all decide) (by cbv),
      fun hNone => by cases hNone⟩
  · rw [mem_schemaFiles_iff_standsFor (twoProjects_hasNames.inside rfl)]
    exact ⟨Path.isNormal_ofText _, by with_unfolding_all decide, "*",
      List.mem_singleton_self _, rfl, ⟨"*", by decide, by decide⟩,
      takes_star (twoProjects_isName (by decide)) (by with_unfolding_all decide) (by cbv)⟩
  · rw [hMember]
    rintro ⟨-, -, -, taken, left, hParts, ⟨name, rfl, -, -, hAdmits⟩, -⟩
    have hName : "p[1]" = name := (List.cons.inj hParts).1
    rw [← hName, hBracket.2] at hAdmits
    cases hAdmits

end Config
end SchemaModels
