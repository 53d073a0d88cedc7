import Mathlib
import SchemaModels.Proofs.Entries
import SchemaModels.Proofs.Introspection.Listing

/-!
The order of the files that are listed. They are the files among all that the patterns
select, one pattern after the other, each path in its first place. So further patterns
add files at the end only, and what finds the texts of a pattern may give them in any
order and more than once.
-/
namespace SchemaModels

/-- What is dropped anyway may be dropped before or after the repetitions. -/
theorem eraseDups_filter {α : Type} [BEq α] [LawfulBEq α] (p : α → Bool) (items : List α) :
    (items.filter p).eraseDups = items.eraseDups.filter p := by
  induction items using List.reverseRecOn with
  | nil => rfl
  | append_singleton items item ih =>
      rw [List.filter_append, eraseDups_concat]
      cases hItem : p item with
      | false =>
          have hNone : [item].filter p = [] := by simp [hItem]
          rw [hNone, List.append_nil, ih]
          split_ifs <;> simp [hItem]
      | true =>
          have hOne : [item].filter p = [item] := by simp [hItem]
          rw [hOne, eraseDups_concat, ih]
          by_cases hMember : item ∈ items
          · rw [if_pos hMember, if_pos (List.mem_filter.mpr ⟨hMember, hItem⟩)]
          · rw [if_neg hMember, if_neg (fun h => hMember (List.mem_filter.mp h).1),
              List.filter_append, hOne]

variable {tree : FileTree} {patterns : List String} {find : Glob.Finder}

/-- What is listed stays, and behind it come the other files, each in its first place. -/
theorem addFiles_eq (tree : FileTree) (listed paths : List Path) :
    addFiles tree listed paths = listed ++ (paths.filter fun path =>
      tree.isFile path.text && !listed.contains path).eraseDups := by
  induction paths generalizing listed with
  | nil => simp [addFiles]
  | cons path rest ih =>
      rw [addFiles, List.filter_cons]
      split
      · have hFilter (next : Path) :
            (tree.isFile next.text && !(listed ++ [path]).contains next) =
              (!(next == path) && (tree.isFile next.text && !listed.contains next)) := by
          simp only [List.contains_append, List.contains_cons, List.contains_nil, Bool.or_false,
            Bool.not_or]
          cases tree.isFile next.text <;> cases next == path <;> simp
        rw [ih, List.eraseDups_cons, List.filter_filter, List.append_assoc, List.singleton_append]
        simp only [hFilter]
      · exact ih listed

/-- The files of all patterns in the order of the patterns, each in its first place. -/
theorem schemaFiles_eq : schemaFiles tree patterns find =
    ((patterns.flatMap (expansion tree · find)).filter
      fun path => tree.isFile path.text).eraseDups := by
  rw [schemaFiles, foldl_addFiles, addFiles_eq]
  simp

/-- Further patterns add what is not listed yet, in their own order. -/
theorem schemaFiles_append (tree : FileTree) (find : Glob.Finder) (patterns more : List String) :
    schemaFiles tree (patterns ++ more) find = schemaFiles tree patterns find ++
      (schemaFiles tree more find).filter (!(schemaFiles tree patterns find).contains ·) := by
  have hMore : schemaFiles tree more find = ((more.flatMap (expansion tree · find)).filter
      fun path => tree.isFile path.text).eraseDups := schemaFiles_eq
  rw [hMore, ← eraseDups_filter, List.filter_filter, schemaFiles, List.foldl_append,
    ← schemaFiles, foldl_addFiles, addFiles_eq]
  simp only [Bool.and_comm]

/-- Patterns whose files are all listed add nothing, wherever they stand behind the
others. -/
theorem schemaFiles_covered {more : List String}
    (h : schemaFiles tree more find ⊆ schemaFiles tree patterns find) (later : List String) :
    schemaFiles tree (patterns ++ (more ++ later)) find =
      schemaFiles tree (patterns ++ later) find := by
  have hNone : (schemaFiles tree more find).filter
      (!(schemaFiles tree patterns find).contains ·) = [] := by
    rw [List.filter_eq_nil_iff]
    intro path hPath
    simpa using h hPath
  have hSame : schemaFiles tree (patterns ++ more) find = schemaFiles tree patterns find := by
    rw [schemaFiles_append, hNone, List.append_nil]
  rw [← List.append_assoc, schemaFiles_append, hSame, ← schemaFiles_append]

theorem schemaFiles_subset_of_mem {pattern : String} (h : pattern ∈ patterns) :
    schemaFiles tree [pattern] find ⊆ schemaFiles tree patterns find := by
  intro path hPath
  obtain ⟨hFile, other, hOther, hSelects⟩ := mem_schemaFiles_iff.mp hPath
  obtain rfl := List.mem_singleton.mp hOther
  exact mem_schemaFiles_iff.mpr ⟨hFile, other, h, hSelects⟩

/-! Which texts are selected is all that counts, as they are sorted. -/

/-- The paths of a pattern are those of its texts in order. -/
theorem expansion_sorted (tree : FileTree) (pattern : String) (find : Glob.Finder) :
    ∃ texts : List String, texts.Perm (find tree pattern) ∧ texts.Pairwise (· ≤ ·) ∧
      expansion tree pattern find = texts.map Path.ofText :=
  ⟨_, List.mergeSort_perm _ _, List.pairwise_mergeSort' (· ≤ ·) _, rfl⟩

theorem addFiles_filter (tree : FileTree) (listed paths : List Path) :
    addFiles tree listed (paths.filter fun path => tree.isFile path.text) =
      addFiles tree listed paths := by
  rw [addFiles_eq, addFiles_eq, List.filter_filter]
  congr 3
  funext path
  cases tree.isFile path.text <;> simp

/-- A path that comes twice is listed once. -/
theorem addFiles_twice (tree : FileTree) (listed : List Path) (path : Path) (rest : List Path) :
    addFiles tree listed (path :: path :: rest) = addFiles tree listed (path :: rest) := by
  cases hFile : tree.isFile path.text with
  | false => simp [addFiles, hFile]
  | true =>
      by_cases hListed : path ∈ listed
      · simp [addFiles, hListed]
      · simp [addFiles, hFile, hListed]

/-- Sorted texts that are the same stand behind each other. -/
theorem addFiles_dedup (tree : FileTree) (listed : List Path) {texts : List String}
    (hSorted : texts.Pairwise (· ≤ ·)) :
    addFiles tree listed (texts.dedup.map Path.ofText) =
      addFiles tree listed (texts.map Path.ofText) := by
  induction texts generalizing listed with
  | nil => rfl
  | cons text rest ih =>
      obtain ⟨hFirst, hRest⟩ := List.pairwise_cons.mp hSorted
      by_cases hMember : text ∈ rest
      · rw [List.dedup_cons_of_mem hMember, ih listed hRest]
        obtain ⟨next, others, rfl⟩ := List.exists_cons_of_ne_nil (List.ne_nil_of_mem hMember)
        have hSame : text = next := by
          rcases List.mem_cons.mp hMember with hHead | hOthers
          · exact hHead
          · exact String.le_antisymm (hFirst next (List.mem_cons_self ..))
              ((List.pairwise_cons.mp hRest).1 text hOthers)
        subst hSame
        exact (addFiles_twice tree listed (Path.ofText text) (others.map Path.ofText)).symm
      · rw [List.dedup_cons_of_notMem hMember, List.map_cons, List.map_cons, addFiles, addFiles,
          ih _ hRest, ih _ hRest]

/-- Sorted texts are given by their members, each of them taken once. -/
theorem dedup_eq_of_sorted {texts others : List String} (hTexts : texts.Pairwise (· ≤ ·))
    (hOthers : others.Pairwise (· ≤ ·)) (hSame : ∀ text, text ∈ texts ↔ text ∈ others) :
    texts.dedup = others.dedup := by
  have hPerm : texts.dedup.Perm others.dedup := by
    rw [List.perm_ext_iff_of_nodup (List.nodup_dedup texts) (List.nodup_dedup others)]
    intro text
    rw [List.mem_dedup, List.mem_dedup, hSame]
  exact hPerm.eq_of_pairwise (fun _ _ _ _ => String.le_antisymm)
    (hTexts.sublist (List.dedup_sublist texts)) (hOthers.sublist (List.dedup_sublist others))

/-- The texts of files that a pattern selects, in order. -/
def fileTexts (tree : FileTree) (pattern : String) (find : Glob.Finder := Glob.expand) :
    List String :=
  ((find tree pattern).mergeSort fun a b => decide (a ≤ b)).filter
    fun text => tree.isFile (Path.ofText text).text

theorem mem_fileTexts_iff {pattern text : String} : text ∈ fileTexts tree pattern find ↔
    text ∈ find tree pattern ∧ tree.isFile (Path.ofText text).text = true := by
  rw [fileTexts, List.mem_filter, List.mem_mergeSort]

theorem fileTexts_sorted (tree : FileTree) (pattern : String) :
    (fileTexts tree pattern find).Pairwise (· ≤ ·) :=
  (List.pairwise_mergeSort' (· ≤ ·) _).filter _

theorem addFiles_expansion (tree : FileTree) (listed : List Path) (pattern : String) :
    addFiles tree listed (expansion tree pattern find) =
      addFiles tree listed ((fileTexts tree pattern find).dedup.map Path.ofText) := by
  rw [addFiles_dedup tree listed (fileTexts_sorted tree pattern), expansion, fileTexts,
    ← addFiles_filter, List.filter_map, Function.comp_def]

/-- Neither the order in which texts are found nor how often each is found matters. -/
theorem schemaFiles_congr {other : Glob.Finder}
    (h : ∀ pattern ∈ patterns, ∀ text, text ∈ other tree pattern ↔ text ∈ find tree pattern) :
    schemaFiles tree patterns other = schemaFiles tree patterns find := by
  refine List.foldl_ext _ _ _ fun listed pattern hPattern => ?_
  have hSame (text : String) :
      text ∈ fileTexts tree pattern other ↔ text ∈ fileTexts tree pattern find := by
    rw [mem_fileTexts_iff, mem_fileTexts_iff, h pattern hPattern]
  rw [addFiles_expansion, addFiles_expansion,
    dedup_eq_of_sorted (fileTexts_sorted tree pattern) (fileTexts_sorted tree pattern) hSame]

/-- Whatever finds the texts of a pattern, the paths of a pattern come in the order of the
texts. All that is listed is a file, no path is listed twice, and the list is that of the
files of all patterns, one pattern after the other, with each path in its first place.
Further patterns add at the end what is not listed yet, in their own order, and nothing
if they only select what is listed; so does a pattern that comes again. In which order
texts are found, and how often, changes nothing. -/
theorem schemaFiles_order (tree : FileTree) (find : Glob.Finder) (patterns more : List String) :
    (∀ pattern, ∃ texts : List String, texts.Perm (find tree pattern) ∧
      texts.Pairwise (· ≤ ·) ∧ expansion tree pattern find = texts.map Path.ofText) ∧
    (∀ path ∈ schemaFiles tree patterns find, tree.isFile path.text = true) ∧
    (schemaFiles tree patterns find).Nodup ∧
    schemaFiles tree patterns find = ((patterns.flatMap (expansion tree · find)).filter
      fun path => tree.isFile path.text).eraseDups ∧
    schemaFiles tree (patterns ++ more) find = schemaFiles tree patterns find ++
      (schemaFiles tree more find).filter (!(schemaFiles tree patterns find).contains ·) ∧
    schemaFiles tree patterns find <+: schemaFiles tree (patterns ++ more) find ∧
    (schemaFiles tree more find ⊆ schemaFiles tree patterns find → ∀ later,
      schemaFiles tree (patterns ++ (more ++ later)) find =
        schemaFiles tree (patterns ++ later) find) ∧
    (∀ pattern ∈ patterns, ∀ later, schemaFiles tree (patterns ++ pattern :: later) find =
      schemaFiles tree (patterns ++ later) find) ∧
    ∀ other : Glob.Finder,
      (∀ pattern ∈ patterns, ∀ text, text ∈ other tree pattern ↔ text ∈ find tree pattern) →
      schemaFiles tree patterns other = schemaFiles tree patterns find := by
  have hAppend := schemaFiles_append tree find patterns more
  refine ⟨fun pattern => expansion_sorted tree pattern find,
    fun path hPath => (mem_schemaFiles_iff.mp hPath).1, schemaFiles_nodup, schemaFiles_eq,
    hAppend, hAppend ▸ List.prefix_append _ _, fun hCovered later =>
      schemaFiles_covered hCovered later, ?_, fun other hSame => schemaFiles_congr hSame⟩
  intro pattern hPattern later
  have hCovered : schemaFiles tree [pattern] find ⊆ schemaFiles tree patterns find :=
    schemaFiles_subset_of_mem hPattern
  exact schemaFiles_covered hCovered later

/-- Two files in a directory, and what finds them in the wrong order and one of them in
two spellings. -/
def twoFiles : FileTree := ⟨[(["a"], .file []), (["b"], .file [])], []⟩

def unsorted : Glob.Finder := fun _ _ => ["b", "a", "./a", "b"]

/-- They are listed in the order of their texts, and a pattern that comes again adds
nothing. -/
theorem twoFiles_order :
    schemaFiles twoFiles ["*"] unsorted = [Path.ofText "a", Path.ofText "b"] ∧
      schemaFiles twoFiles ["*", "*"] unsorted = schemaFiles twoFiles ["*"] unsorted ∧
      schemaFiles twoFiles ["*"] (fun _ _ => ["./a", "b", "a"]) =
        schemaFiles twoFiles ["*"] unsorted := by
  obtain ⟨-, -, -, -, -, -, -, hAgain, hSame⟩ := schemaFiles_order twoFiles unsorted ["*"] []
  have hListed : schemaFiles twoFiles ["*"] unsorted = [Path.ofText "a", Path.ofText "b"] := by
    rw [schemaFiles_eq, List.flatMap_singleton]
    cbv
  refine ⟨hListed, hAgain "*" (by simp) [], hSame _ ?_⟩
  intro pattern _ text
  simp only [unsorted, List.mem_cons, List.not_mem_nil, or_false]
  grind

end SchemaModels
