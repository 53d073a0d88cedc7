import SchemaModels.Files.Search
import SchemaModels.Proofs.Files.Places

/-!
What patterns stand for. Each name of a pattern stands for some parts of a path, and
the whole pattern for all of them. A file is selected exactly if it is there and the
pattern stands for its path.
-/
namespace SchemaModels.Glob

open SchemaModels.Path (IsName IsPart EndsInPart)

/-- Whether a name of a pattern stands for parts of a path. The others stay in
place. -/
def Segment.isStep : Segment → Bool
  | .close => false
  | .plain name => name != "."
  | .wild _ => true
  | .deep => true

/-- The parts of a path that a name of a pattern stands for. -/
def Segment.Takes : Segment → List String → Prop
  | .close, taken => taken = []
  | .plain name, taken => taken = [name]
  | .wild pattern, taken => ∃ name, taken = [name] ∧ IsName name ∧
      (isHidden name = true → isHidden pattern = true) ∧
      admits (pieces pattern.toList) name.toList = true
  | .deep, taken => ∀ name ∈ taken, IsName name ∧ isHidden name = false

/-- Names of a pattern stand for the parts of a path, one after the other. The last
one stands for at least one part. -/
def Matches : List Segment → List String → Prop
  | [], parts => parts = []
  | segment :: rest, parts => ∃ taken left, parts = taken ++ left ∧ segment.Takes taken ∧
      Matches rest left ∧ (rest = [] → taken ≠ [])

/-- The names of a pattern that lead somewhere. -/
def steps (text : String) : List Segment := (Path.partsOf text.toList).map Segment.ofName

/-- A name of a pattern that is written without a separator. -/
def Segment.IsWritten (segment : Segment) : Prop :=
  ∃ name, '/' ∉ name.toList ∧ segment = .ofName name

theorem Matches.ne_nil {segments : List Segment} {parts : List String}
    (h : Matches segments parts) (hSome : segments ≠ []) : parts ≠ [] := by
  induction segments generalizing parts with
  | nil => exact absurd rfl hSome
  | cons segment rest ih =>
      obtain ⟨taken, left, rfl, -, hLeft, hLast⟩ := h
      by_cases hRest : rest = []
      · exact List.append_ne_nil_of_left_ne_nil (hLast hRest) left
      · exact List.append_ne_nil_of_right_ne_nil taken (ih hLeft hRest)

/-- A name that stands for itself only is the first part. -/
theorem matches_cons_iff {segment : Segment} {name : String}
    (h : ∀ taken, segment.Takes taken ↔ taken = [name]) (rest : List Segment)
    (parts : List String) :
    Matches (segment :: rest) parts ↔ ∃ left, parts = name :: left ∧ Matches rest left := by
  constructor
  · rintro ⟨taken, left, rfl, hTaken, hLeft, -⟩
    obtain rfl := (h taken).mp hTaken
    exact ⟨left, rfl, hLeft⟩
  · rintro ⟨left, rfl, hLeft⟩
    exact ⟨[name], left, rfl, (h _).mpr rfl, hLeft, fun _ => List.cons_ne_nil _ _⟩

/-- Names that stand for themselves only are the first parts. -/
theorem matches_append_iff {names : List String}
    (h : ∀ name ∈ names, ∀ taken, (Segment.ofName name).Takes taken ↔ taken = [name])
    (rest : List Segment) (parts : List String) :
    Matches (names.map Segment.ofName ++ rest) parts ↔
      ∃ left, parts = names ++ left ∧ Matches rest left := by
  induction names generalizing parts with
  | nil => simp
  | cons name names ih =>
      obtain ⟨hName, hNames⟩ := List.forall_mem_cons.mp h
      rw [List.map_cons, List.cons_append, matches_cons_iff hName]
      simp only [ih hNames]
      constructor
      · rintro ⟨_, rfl, left, rfl, hLeft⟩
        exact ⟨left, rfl, hLeft⟩
      · rintro ⟨left, rfl, hLeft⟩
        exact ⟨_, rfl, left, rfl, hLeft⟩

/-! The names of a pattern. -/

theorem ofName_plain {name : String} (hSome : name ≠ "") (h : hasWildcard name = false) :
    Segment.ofName name = .plain name := by
  have hDeep : name ≠ "**" := by
    rintro rfl
    exact absurd h (by decide)
  rw [Segment.ofName, if_neg (by simpa using hSome), if_neg (by simpa using hDeep),
    if_neg (by simp [h])]

theorem takes_plain {name : String} (hSome : name ≠ "") (h : hasWildcard name = false)
    (taken : List String) : (Segment.ofName name).Takes taken ↔ taken = [name] := by
  rw [ofName_plain hSome h]
  exact Iff.rfl

theorem isStep_ofName (name : String) : (Segment.ofName name).isStep = Path.leads name := by
  by_cases hSome : name = ""
  · subst hSome
    rfl
  by_cases hWild : hasWildcard name = true
  · have hHere : name ≠ "." := by
      rintro rfl
      exact absurd hWild (by decide)
    have hStep : (Segment.ofName name).isStep = true := by
      rw [Segment.ofName, if_neg (by simpa using hSome)]
      split_ifs
      · rfl
      · rfl
    rw [hStep, Path.leads_iff.mpr ⟨hSome, hHere⟩]
  · rw [ofName_plain hSome (by simpa using hWild)]
    simp [Segment.isStep, Path.leads, hSome]

theorem ofName_eq_close_iff {name : String} : Segment.ofName name = .close ↔ name = "" := by
  rw [Segment.ofName]
  split_ifs with hEmpty hDeep hWild
  · simpa using hEmpty
  · simpa using hEmpty
  · simpa using hEmpty
  · simpa using hEmpty

theorem isPart_of_plain {name : String} (h : (Segment.plain name).IsWritten)
    (hStep : (Segment.plain name).isStep = true) : IsPart name := by
  obtain ⟨written, hSeparator, hName⟩ := h
  rw [Segment.ofName] at hName
  split_ifs at hName with hEmpty hDeep hWild
  obtain rfl := Segment.plain.inj hName
  exact ⟨by simpa using hEmpty, by simpa [Segment.isStep] using hStep, hSeparator⟩

/-- The names of a pattern that are steps are its names that lead somewhere. -/
theorem filter_segmentsOf (chars : List Char) :
    (segmentsOf chars).filter Segment.isStep = (Path.partsOf chars).map Segment.ofName := by
  have hNames : (Path.namesOf chars).dropLast ++ (Path.namesOf chars).getLast?.toList =
      Path.namesOf chars := by
    rw [List.getLast?_eq_some_getLast (Path.namesOf_ne_nil chars), Option.toList_some,
      List.dropLast_append_getLast]
  have hFilter (names : List String) : (names.map Segment.ofName).filter Segment.isStep =
      (names.filter Path.leads).map Segment.ofName := by
    rw [List.filter_map]
    exact congrArg _ (List.filter_congr fun name _ => isStep_ofName name)
  have hInner (names : List String) :
      (names.filter (· != "")).filter Path.leads = names.filter Path.leads := by
    rw [List.filter_filter]
    refine List.filter_congr fun name _ => ?_
    simp only [Path.leads]
    cases name != "" <;> simp
  rw [segmentsOf, ← Path.namesOf, List.filter_append, hFilter, hInner, Path.partsOf_eq]
  conv_rhs => rw [← hNames, List.filter_append, List.map_append]
  cases (Path.namesOf chars).getLast? with
  | none => rfl
  | some last => exact congrArg _ (hFilter [last])

theorem isWritten_of_mem_segmentsOf {chars : List Char} {segment : Segment}
    (h : segment ∈ segmentsOf chars) : segment.IsWritten := by
  rw [segmentsOf, ← Path.namesOf, List.mem_append, List.mem_map] at h
  rcases h with ⟨name, hName, rfl⟩ | hLast
  · have hMember := List.dropLast_subset _ (List.mem_of_mem_filter hName)
    exact ⟨name, Path.no_separator_of_mem_namesOf hMember, rfl⟩
  · rw [Option.mem_toList, Option.map_eq_some_iff] at hLast
    obtain ⟨name, hName, rfl⟩ := hLast
    exact ⟨name, Path.no_separator_of_mem_namesOf (List.mem_of_mem_getLast? hName), rfl⟩

theorem getLast?_segmentsOf (chars : List Char) :
    (segmentsOf chars).getLast? = (Path.namesOf chars).getLast?.map Segment.ofName := by
  rw [segmentsOf, ← Path.namesOf, List.getLast?_append,
    List.getLast?_eq_some_getLast (Path.namesOf_ne_nil chars)]
  rfl

theorem endsInStep_iff {chars : List Char} :
    (∃ last, (segmentsOf chars).getLast? = some last ∧ last.isStep = true) ↔
      EndsInPart chars := by
  rw [getLast?_segmentsOf, EndsInPart]
  constructor
  · rintro ⟨last, hLast, hStep⟩
    obtain ⟨name, hName, rfl⟩ := Option.map_eq_some_iff.mp hLast
    exact ⟨name, hName, (isStep_ofName name).symm.trans hStep⟩
  · rintro ⟨name, hName, hLeads⟩
    exact ⟨_, Option.map_eq_some_iff.mpr ⟨name, hName, rfl⟩, (isStep_ofName name).trans hLeads⟩

theorem ne_close_of_mem_segmentsOf {chars : List Char} (hEnds : EndsInPart chars)
    {segment : Segment} (h : segment ∈ segmentsOf chars) : segment ≠ .close := by
  obtain ⟨last, hLast, hLeads⟩ := hEnds
  rw [segmentsOf, ← Path.namesOf, hLast, List.mem_append, List.mem_map] at h
  rcases h with ⟨name, hName, rfl⟩ | hMember
  · rw [Ne, ofName_eq_close_iff]
    simpa using (List.mem_filter.mp hName).2
  · obtain rfl := List.mem_singleton.mp hMember
    rw [Ne, ofName_eq_close_iff]
    exact (Path.leads_iff.mp hLeads).1

end SchemaModels.Glob
