import Mathlib.Data.List.TakeWhile
import SchemaModels.Files.Path

/-!
Paths and the texts that write them. The names in a text stand between its
separators. Empty ones and those that stay in place lead nowhere, and a path keeps
the others. So a text behind another one adds its names, and the text of a path
writes that path.
-/
namespace SchemaModels.Path

/-- A text begins with a text of one character exactly if that is its first one. -/
theorem startsWith_iff_head? {text start : String} {c : Char} (h : start.toList = [c]) :
    text.startsWith start = true ↔ text.toList.head? = some c := by
  rw [String.startsWith_string_iff, h]
  cases text.toList with
  | nil => simp
  | cons d rest => simp [eq_comm]

/-- A part of a path: a name that leads somewhere, possibly up. -/
structure IsPart (part : String) : Prop where
  ne_empty : part ≠ ""
  ne_here : part ≠ "."
  no_separator : '/' ∉ part.toList

/-- A name that something in a directory has. -/
structure IsName (name : String) : Prop extends IsPart name where
  ne_up : name ≠ ".."

instance (name : String) : Decidable (IsName name) :=
  decidable_of_iff (((name ≠ "" ∧ name ≠ ".") ∧ '/' ∉ name.toList) ∧ name ≠ "..")
    ⟨fun h => ⟨⟨h.1.1.1, h.1.1.2, h.1.2⟩, h.2⟩,
      fun h => ⟨⟨⟨h.ne_empty, h.ne_here⟩, h.no_separator⟩, h.ne_up⟩⟩

/-- A path whose parts all lead somewhere. -/
def IsNormal (path : Path) : Prop := ∀ part ∈ path.parts, IsPart part

/-- The path to something below what a path leads to. -/
def below (path : Path) (names : List String) : Path :=
  { path with parts := path.parts ++ names }

theorem IsNormal.below {path : Path} (h : path.IsNormal) {names : List String}
    (hNames : ∀ name ∈ names, IsPart name) : (path.below names).IsNormal := by
  intro part hPart
  rcases List.mem_append.mp hPart with hPart | hPart
  · exact h part hPart
  · exact hNames part hPart

/-- All names of a text, with those that lead nowhere. -/
def namesOf (chars : List Char) : List String := (splitSeparators chars).map String.ofList

/-- Whether a name leads somewhere. -/
def leads (name : String) : Bool := name != "" && name != "."

theorem leads_iff {name : String} : leads name = true ↔ name ≠ "" ∧ name ≠ "." := by
  simp [leads]

theorem partsOf_eq (chars : List Char) : partsOf chars = (namesOf chars).filter leads := rfl

theorem splitSeparators_ne_nil (chars : List Char) : splitSeparators chars ≠ [] := by
  cases chars with
  | nil => exact List.cons_ne_nil _ _
  | cons c rest =>
      rw [splitSeparators]
      split
      · exact List.cons_ne_nil _ _
      · split
        · exact List.cons_ne_nil _ _
        · exact List.cons_ne_nil _ _

theorem splitSeparators_append (before after : List Char) :
    splitSeparators (before ++ '/' :: after) =
      splitSeparators before ++ splitSeparators after := by
  induction before with
  | nil => simp [splitSeparators]
  | cons c before ih =>
      rw [List.cons_append, splitSeparators, splitSeparators, ih]
      split
      · rfl
      · cases hSplit : splitSeparators before with
        | nil => exact absurd hSplit (splitSeparators_ne_nil before)
        | cons name names => rfl

theorem splitSeparators_of_not_mem {chars : List Char} (h : '/' ∉ chars) :
    splitSeparators chars = [chars] := by
  induction chars with
  | nil => rfl
  | cons c rest ih =>
      rw [List.mem_cons, not_or] at h
      rw [splitSeparators, if_neg (Ne.symm h.1), ih h.2]

/-- No name has a separator in it. -/
theorem not_mem_of_mem_splitSeparators {chars name : List Char}
    (h : name ∈ splitSeparators chars) : '/' ∉ name := by
  induction chars generalizing name with
  | nil =>
      obtain rfl := List.mem_singleton.mp h
      exact List.not_mem_nil
  | cons c rest ih =>
      rw [splitSeparators] at h
      split at h
      · rcases List.mem_cons.mp h with rfl | hRest
        · exact List.not_mem_nil
        · exact ih hRest
      · rename_i hOther
        split at h
        · rename_i first names hSplit
          rw [hSplit] at ih
          rcases List.mem_cons.mp h with rfl | hRest
          · rw [List.mem_cons, not_or]
            exact ⟨Ne.symm hOther, ih (List.mem_cons_self ..)⟩
          · exact ih (List.mem_cons_of_mem _ hRest)
        · rename_i hSplit
          exact absurd hSplit (splitSeparators_ne_nil rest)

theorem mem_of_mem_splitSeparators {chars name : List Char} (h : name ∈ splitSeparators chars)
    {c : Char} (hc : c ∈ name) : c ∈ chars := by
  induction chars generalizing name with
  | nil =>
      obtain rfl := List.mem_singleton.mp h
      exact hc
  | cons first rest ih =>
      rw [splitSeparators] at h
      split at h
      · rcases List.mem_cons.mp h with rfl | hRest
        · cases hc
        · exact List.mem_cons_of_mem _ (ih hRest hc)
      · split at h
        · rename_i name names hSplit
          rcases List.mem_cons.mp h with rfl | hRest
          · rcases List.mem_cons.mp hc with rfl | hc
            · exact List.mem_cons_self ..
            · exact List.mem_cons_of_mem _ (ih (hSplit ▸ List.mem_cons_self ..) hc)
          · exact List.mem_cons_of_mem _ (ih (hSplit ▸ List.mem_cons_of_mem _ hRest) hc)
        · rename_i hSplit
          exact absurd hSplit (splitSeparators_ne_nil rest)

@[simp] theorem namesOf_nil : namesOf [] = [""] := rfl

theorem namesOf_append (before after : List Char) :
    namesOf (before ++ '/' :: after) = namesOf before ++ namesOf after := by
  rw [namesOf, splitSeparators_append, List.map_append]
  rfl

theorem namesOf_of_not_mem {chars : List Char} (h : '/' ∉ chars) :
    namesOf chars = [String.ofList chars] := by
  rw [namesOf, splitSeparators_of_not_mem h]
  rfl

theorem namesOf_ne_nil (chars : List Char) : namesOf chars ≠ [] := by
  rw [namesOf, Ne, List.map_eq_nil_iff]
  exact splitSeparators_ne_nil chars

theorem no_separator_of_mem_namesOf {chars : List Char} {name : String}
    (h : name ∈ namesOf chars) : '/' ∉ name.toList := by
  obtain ⟨part, hPart, rfl⟩ := List.mem_map.mp h
  rw [String.toList_ofList]
  exact not_mem_of_mem_splitSeparators hPart

@[simp] theorem partsOf_nil : partsOf [] = [] := rfl

theorem partsOf_append (before after : List Char) :
    partsOf (before ++ '/' :: after) = partsOf before ++ partsOf after := by
  rw [partsOf_eq, namesOf_append, List.filter_append]
  rfl

theorem isPart_of_mem_partsOf {chars : List Char} {part : String} (h : part ∈ partsOf chars) :
    IsPart part := by
  rw [partsOf_eq, List.mem_filter, leads_iff] at h
  exact ⟨h.2.1, h.2.2, no_separator_of_mem_namesOf h.1⟩

theorem mem_of_mem_partsOf {chars : List Char} {part : String} (h : part ∈ partsOf chars)
    {c : Char} (hc : c ∈ part.toList) : c ∈ chars := by
  rw [partsOf_eq] at h
  obtain ⟨name, hName, rfl⟩ := List.mem_map.mp (List.mem_filter.mp h).1
  rw [String.toList_ofList] at hc
  exact mem_of_mem_splitSeparators hName hc

theorem partsOf_separators (before : List Char) (count : Nat) :
    partsOf (before ++ List.replicate count '/') = partsOf before := by
  cases count with
  | zero => rw [List.replicate_zero, List.append_nil]
  | succ count =>
      have hNone : partsOf (List.replicate count '/') = [] := by
        induction count with
        | zero => rfl
        | succ count ih =>
            rw [List.replicate_succ, ← List.nil_append ('/' :: _), partsOf_append, ih]
            rfl
      rw [List.replicate_succ, partsOf_append, hNone, List.append_nil]

theorem isNormal_ofText (text : String) : (ofText text).IsNormal :=
  fun _ h => isPart_of_mem_partsOf h

theorem namesOf_part {part : String} (h : '/' ∉ part.toList) : namesOf part.toList = [part] := by
  rw [namesOf_of_not_mem h, String.ofList_toList]

theorem IsPart.leads {part : String} (h : IsPart part) : leads part = true :=
  leads_iff.mpr ⟨h.ne_empty, h.ne_here⟩

theorem IsPart.partsOf_eq {part : String} (h : IsPart part) : partsOf part.toList = [part] := by
  rw [Path.partsOf_eq, namesOf_part h.no_separator, List.filter_cons_of_pos h.leads,
    List.filter_nil]

/-! Where a text starts. -/

theorem takeWhile_separators {chars : List Char} (h : chars.head? ≠ some '/') :
    chars.takeWhile (· == '/') = [] := by
  cases chars with
  | nil => rfl
  | cons c rest =>
      have hOther : (c == '/') = false := by simpa using h
      rw [List.takeWhile_cons, hOther]
      rfl

theorem startOf_eq_relative_iff {chars : List Char} :
    startOf chars = .relative ↔ chars.head? ≠ some '/' := by
  refine ⟨fun h hHead => ?_, fun h => by rw [startOf, takeWhile_separators h]; rfl⟩
  cases chars with
  | nil => cases hHead
  | cons c rest =>
      obtain rfl : c = '/' := by simpa using hHead
      unfold startOf at h
      split at h
      · rename_i hLength
        simp at hLength
      · cases h
      · cases h

/-- A text with something behind it starts where it starts, unless separators follow
a text of separators. -/
theorem startOf_append {before after : List Char}
    (h : (∃ c ∈ before, c ≠ '/') ∨ after.head? ≠ some '/') :
    startOf (before ++ after) = startOf before := by
  have hLeading : (before ++ after).takeWhile (· == '/') = before.takeWhile (· == '/') := by
    rw [List.takeWhile_append]
    split
    · rename_i hAll
      have hSelf := (List.takeWhile_prefix (· == '/')).eq_of_length hAll
      have hBefore : ∀ c ∈ before, c = '/' := by
        intro c hc
        rw [← hSelf] at hc
        simpa using List.mem_takeWhile_imp hc
      have hAfter : after.head? ≠ some '/' := by
        rcases h with ⟨c, hc, hOther⟩ | hAfter
        · exact absurd (hBefore c hc) hOther
        · exact hAfter
      rw [takeWhile_separators hAfter, List.append_nil, hSelf]
    · rfl
  rw [startOf, startOf, hLeading]

/-! The text of a path. -/

theorem namesOf_intercalate {parts : List String} (hSome : parts ≠ [])
    (hParts : ∀ part ∈ parts, IsPart part) :
    namesOf ("/".intercalate parts).toList = parts := by
  induction parts with
  | nil => exact absurd rfl hSome
  | cons part rest ih =>
      obtain ⟨hPart, hRest⟩ := List.forall_mem_cons.mp hParts
      cases rest with
      | nil =>
          rw [String.intercalate_singleton]
          exact namesOf_part hPart.no_separator
      | cons next rest =>
          have hText : ("/".intercalate (part :: next :: rest)).toList =
              part.toList ++ '/' :: ("/".intercalate (next :: rest)).toList := by
            simp [String.intercalate_cons_cons]
          rw [hText, namesOf_append, ih (List.cons_ne_nil _ _) hRest,
            namesOf_part hPart.no_separator]
          rfl

theorem head?_intercalate_ne {parts : List String} (hParts : ∀ part ∈ parts, IsPart part) :
    ("/".intercalate parts).toList.head? ≠ some '/' := by
  cases parts with
  | nil => simp
  | cons part rest =>
      have hPart := hParts part (List.mem_cons_self ..)
      intro hHead
      have hFirst : part.toList.head? = some '/' := by
        cases hChars : part.toList with
        | nil => exact absurd (String.toList_eq_nil_iff.mp hChars) hPart.ne_empty
        | cons c chars =>
            cases rest with
            | nil => simpa [hChars] using hHead
            | cons next rest =>
                simpa [String.intercalate_cons_cons, hChars] using hHead
      exact hPart.no_separator (List.mem_of_mem_head? hFirst)

variable {path : Path}

theorem text_of_parts_ne_nil (hSome : path.parts ≠ []) :
    path.text = startText path.start ++ "/".intercalate path.parts := by
  rw [text, if_neg]
  simp [hSome]

/-- The names of the text of a path: empty ones for the separators in front, and then
the parts of the path. -/
theorem namesOf_text (h : path.IsNormal) (hSome : path.parts ≠ []) :
    ∃ count, namesOf path.text.toList = List.replicate count "" ++ path.parts := by
  have hNames := namesOf_intercalate hSome h
  rw [text_of_parts_ne_nil hSome, String.toList_append]
  generalize ("/".intercalate path.parts).toList = chars at hNames
  cases path.start with
  | relative => exact ⟨0, hNames⟩
  | top => exact ⟨1, (namesOf_append [] chars).trans (by rw [hNames]; rfl)⟩
  | doubleTop =>
      refine ⟨2, (namesOf_append [] ('/' :: chars)).trans ?_⟩
      rw [← List.nil_append ('/' :: chars), namesOf_append, hNames]
      rfl

theorem partsOf_text (h : path.IsNormal) : partsOf path.text.toList = path.parts := by
  by_cases hSome : path.parts = []
  · rw [hSome, text, hSome]
    cases path.start with
    | relative => rfl
    | top => rfl
    | doubleTop => rfl
  · obtain ⟨count, hNames⟩ := namesOf_text h hSome
    have hEmpty : (List.replicate count "").filter leads = [] := by
      rw [List.filter_replicate]
      rfl
    have hParts : path.parts.filter leads = path.parts :=
      List.filter_eq_self.mpr fun part hPart => (h part hPart).leads
    rw [partsOf_eq, hNames, List.filter_append, hEmpty, hParts, List.nil_append]

theorem startOf_text (h : path.IsNormal) : startOf path.text.toList = path.start := by
  by_cases hSome : path.parts = []
  · rw [text, hSome]
    cases path.start with
    | relative => rfl
    | top => rfl
    | doubleTop => rfl
  · have hHead := head?_intercalate_ne h
    rw [text_of_parts_ne_nil hSome, String.toList_append, startOf_append (Or.inr hHead)]
    cases path.start with
    | relative => rfl
    | top => rfl
    | doubleTop => rfl

/-- The text of a path writes the path. -/
theorem ofText_text (h : path.IsNormal) : ofText path.text = path := by
  rw [ofText, startOf_text h, partsOf_text h]

/-- The last name of a text leads somewhere, so the text does not have to name a
directory. -/
def EndsInPart (chars : List Char) : Prop :=
  ∃ name, (namesOf chars).getLast? = some name ∧ leads name = true

/-- What stands in front of a separator does not matter for how a text ends. -/
theorem endsInPart_append_iff {before after : List Char} :
    EndsInPart (before ++ '/' :: after) ↔ EndsInPart after := by
  rw [EndsInPart, EndsInPart, namesOf_append, List.getLast?_append,
    List.getLast?_eq_some_getLast (namesOf_ne_nil after), Option.some_or]

theorem not_endsInPart_nil : ¬EndsInPart [] := by
  rintro ⟨name, hName, hLeads⟩
  obtain rfl : "" = name := Option.some.inj hName
  exact absurd hLeads (by decide)

theorem endsWith_separator_iff {text : String} :
    text.endsWith "/" = true ↔ ['/'] <:+ text.toList := by
  rw [String.endsWith_eq_endsWith_toSlice, String.Slice.endsWith_string_iff,
    String.copy_toSlice]
  rfl

/-- A text that ends in a part does not end in a separator. -/
theorem EndsInPart.not_endsWith {text : String} (h : EndsInPart text.toList) :
    ¬text.endsWith "/" = true := by
  rw [endsWith_separator_iff]
  rintro ⟨before, hBefore⟩
  rw [← hBefore, endsInPart_append_iff] at h
  exact not_endsInPart_nil h

theorem endsInPart_text (h : path.IsNormal) (hSome : path.parts ≠ []) :
    EndsInPart path.text.toList := by
  obtain ⟨count, hNames⟩ := namesOf_text h hSome
  refine ⟨path.parts.getLast hSome, ?_, (h _ (List.getLast_mem hSome)).leads⟩
  rw [hNames, List.getLast?_append, List.getLast?_eq_some_getLast hSome, Option.some_or]

end SchemaModels.Path
