import SchemaModels.Proofs.Build.Parts
import SchemaModels.Proofs.Entries

/-!
The source of a model beside the directives for the source that it reports. The
source is the first name in the first of these directives. What a directive reports
is the last name in it, and a directive without one is passed over. The two readings
part where names or directives for the source are repeated.
-/
namespace SchemaModels

/-- What a directive says of the source: the value by the name of the argument for
it, if the directive is the one for the source and has no provider. -/
def Directive.sourceValue? (d : Directive) : Option Value :=
  if d.name = Build.sourceDirective ∧ d.provider = none then
    Entries.get? d.args Build.sourceArgument
  else none

/-- What the first directive that says anything of the source says. -/
def Model.reportedSource? (m : Model) : Option Value :=
  m.directives.findSome? Directive.sourceValue?

namespace Build

open Graphql

/-- The source of a model is the text that its directives report, and the default
only if they report none. -/
def SourceAgrees (options : Options) (m : Model) : Prop :=
  match m.reportedSource? with
  | some reported => reported = .text m.source
  | none => options.defaultSource = some m.source

/-- The texts that a directive gives by the name of the argument for the source. -/
def sourceNames (given : List (String × Literal)) : List String :=
  given.filterMap fun
    | (key, .text value) => if key = sourceArgument then some value else none
    | _ => none

/-- Whatever is given by the name of the argument for the source is a text. -/
def NamesAreTexts (given : List (String × Literal)) : Prop :=
  ∀ argument ∈ given, argument.1 = sourceArgument → ∃ value, argument.2 = .text value

/-- The directives for the source. -/
def sourceDirectives (directives : List AppliedDirective) : List AppliedDirective :=
  directives.filter (·.name = sourceDirective)

/-- Where the two readings of the names meet: the first directive that names a source
is the first one for the source, and its first name is also its last; or others come
before it, and its last name is the default. -/
def ReadingsMeet (options : Options) (directives : List AppliedDirective) : Prop :=
  ∀ before applied after, sourceDirectives directives = before ++ applied :: after →
    (∀ other ∈ before, sourceNames other.arguments = []) → sourceNames applied.arguments ≠ [] →
    (if before = [] then (sourceNames applied.arguments).head? else options.defaultSource) =
      (sourceNames applied.arguments).getLast?

theorem sourceDirectives_cons (applied : AppliedDirective) (rest : List AppliedDirective) :
    sourceDirectives (applied :: rest) =
      if applied.name = sourceDirective then applied :: sourceDirectives rest
      else sourceDirectives rest := by
  simp [sourceDirectives, List.filter_cons]

theorem statedSource?_eq_head (directives : List AppliedDirective) :
    statedSource? directives =
      (sourceDirectives directives).head?.bind fun applied =>
        (sourceNames applied.arguments).head? := by
  rw [sourceDirectives, List.head?_filter]
  unfold statedSource? sourceNames
  cases directives.find? (·.name = sourceDirective) with
  | none => rfl
  | some applied =>
      rw [Option.bind_some]
      exact List.head?_filterMap.symm

/-- The values that stand by the name of the argument for the source. -/
theorem filter_pairs {given : List (String × Literal)} {read : List (String × Value)}
    (hRead : pairs given = .ok read) (hTexts : NamesAreTexts given) :
    (read.filter (·.1 == sourceArgument)).map Prod.snd = (sourceNames given).map .text := by
  induction given generalizing read with
  | nil =>
      cases hRead
      rfl
  | cons argument rest ih =>
      obtain ⟨key, literal⟩ := argument
      simp only [pairs, bind_eq_ok_iff, pure, Except.pure, Except.ok.injEq] at hRead
      obtain ⟨first, hFirst, others, hOthers, rfl⟩ := hRead
      have hRest := ih hOthers fun other hOther => hTexts other (List.mem_cons_of_mem _ hOther)
      by_cases hKey : key = sourceArgument
      · obtain ⟨text, hText⟩ := hTexts _ (List.mem_cons_self ..) hKey
        subst hText
        rw [value] at hFirst
        cases hFirst
        simpa [sourceNames, hKey] using hRest
      · have hOther : sourceNames ((key, literal) :: rest) = sourceNames rest := by
          cases literal <;> simp [sourceNames, hKey]
        rw [hOther]
        simpa [hKey] using hRest

/-- Of the names in a directive the last is reported. -/
theorem get?_arguments {given : List (String × Literal)} {args : List (String × Value)}
    (hArgs : arguments given = .ok args) (hTexts : NamesAreTexts given) :
    Entries.get? args sourceArgument = (sourceNames given).getLast?.map .text := by
  unfold arguments at hArgs
  cases hRead : pairs given with
  | error e =>
      rw [hRead] at hArgs
      cases hArgs
  | ok read =>
      rw [hRead] at hArgs
      cases hArgs
      rw [Entries.get?_ofPairs, ← List.getLast?_map, filter_pairs hRead hTexts, List.getLast?_map]

/-- Only the directives for the source say anything of it. -/
theorem sourceValue?_modelDirective {naming : Naming} {applied : AppliedDirective} {d : Directive}
    (h : modelDirective naming applied = .ok d)
    (hTexts : applied.name = sourceDirective → NamesAreTexts applied.arguments) :
    d.sourceValue? = if applied.name = sourceDirective then
      (sourceNames applied.arguments).getLast?.map .text else none := by
  unfold modelDirective at h
  obtain ⟨name, args, hName, hArgs, rfl⟩ := directive_eq_ok_iff.mp h
  by_cases hSource : applied.name = sourceDirective
  · rw [if_pos ((isSource_iff applied).mpr hSource)] at hName
    cases hName
    rw [if_pos hSource, Directive.sourceValue?, if_pos ⟨hSource, rfl⟩]
    exact get?_arguments hArgs (hTexts hSource)
  · rw [if_neg fun h => hSource ((isSource_iff applied).mp h)] at hName
    rw [if_neg hSource, Directive.sourceValue?, if_neg]
    rintro ⟨hOwn, hProvider⟩
    cases naming with
    | plain =>
        cases hName
        exact hSource hOwn
    | provider =>
        obtain ⟨parts, -, rfl⟩ := Option.map_eq_some_iff.mp hName
        cases hProvider

/-- The directives of a model say of the source what those it was built from do. -/
theorem findSome?_sourceValue? {naming : Naming} {given : List AppliedDirective}
    {directives : List Directive}
    (h : List.Forall₂ (fun applied d => modelDirective naming applied = .ok d) given directives)
    (hTexts : ∀ applied ∈ given, applied.name = sourceDirective → NamesAreTexts applied.arguments) :
    directives.findSome? Directive.sourceValue? =
      ((sourceDirectives given).findSome? fun applied =>
        (sourceNames applied.arguments).getLast?).map .text := by
  induction h with
  | nil => rfl
  | @cons applied d given directives hFirst hRest ih =>
      rw [List.forall_mem_cons] at hTexts
      rw [List.findSome?_cons, sourceValue?_modelDirective hFirst hTexts.1, ih hTexts.2]
      rw [sourceDirectives_cons]
      split_ifs with hSource
      · rw [List.findSome?_cons]
        cases (sourceNames applied.arguments).getLast? <;> rfl
      · rfl

section

variable {options : Options} {type : ObjectType} {m : Model}

/-- Where a directive is the first that names a source, the model reports the last
of its names. The source is the first of them if no other directive for the source
comes before, and the default otherwise. -/
theorem source_of_first_named (h : model options type = .ok m)
    (hTexts : ∀ applied ∈ type.directives, applied.name = sourceDirective →
      NamesAreTexts applied.arguments)
    {before after : List AppliedDirective} {applied : AppliedDirective}
    (hSources : sourceDirectives type.directives = before ++ applied :: after)
    (hBefore : ∀ other ∈ before, sourceNames other.arguments = [])
    (hNamed : sourceNames applied.arguments ≠ []) :
    m.reportedSource? = (sourceNames applied.arguments).getLast?.map .text ∧
      (if before = [] then (sourceNames applied.arguments).head? else options.defaultSource) =
        some m.source := by
  obtain ⟨-, hSource, -, hDirectives⟩ := model_eq_ok_iff.mp h
  constructor
  · have hNone : before.findSome? (fun other => (sourceNames other.arguments).getLast?) = none := by
      rw [List.findSome?_eq_none_iff]
      intro other hOther
      rw [hBefore other hOther]
      rfl
    rw [Model.reportedSource?, findSome?_sourceValue? hDirectives hTexts, hSources,
      List.findSome?_append, hNone, Option.none_or, List.findSome?_cons,
      List.getLast?_eq_some_getLast hNamed]
  · rw [← (source_eq_ok_iff.mp hSource).1, statedSource?_eq_head, hSources]
    cases before with
    | nil =>
        obtain ⟨name, names, hNames⟩ := List.exists_cons_of_ne_nil hNamed
        simp [hNames]
    | cons first before => simp [hBefore first (List.mem_cons_self ..)]

/-- Where no directive names a source, none is reported and it is the default. -/
theorem source_of_none_named (h : model options type = .ok m)
    (hTexts : ∀ applied ∈ type.directives, applied.name = sourceDirective →
      NamesAreTexts applied.arguments)
    (hNone : ∀ applied ∈ sourceDirectives type.directives, sourceNames applied.arguments = []) :
    m.reportedSource? = none ∧ options.defaultSource = some m.source := by
  obtain ⟨-, hSource, -, hDirectives⟩ := model_eq_ok_iff.mp h
  constructor
  · rw [Model.reportedSource?, findSome?_sourceValue? hDirectives hTexts, Option.map_eq_none_iff,
      List.findSome?_eq_none_iff]
    intro applied hApplied
    rw [hNone applied hApplied]
    rfl
  · rw [← (source_eq_ok_iff.mp hSource).1, statedSource?_eq_head]
    cases hSources : sourceDirectives type.directives with
    | nil => simp
    | cons first rest => simp [hNone first (by simp [hSources])]

/-- If any directive names a source, one of them is the first. -/
theorem exists_first_named {directives : List AppliedDirective}
    (h : ¬∀ applied ∈ directives, sourceNames applied.arguments = []) :
    ∃ before applied after, directives = before ++ applied :: after ∧
      sourceNames applied.arguments ≠ [] ∧
      ∀ other ∈ before, sourceNames other.arguments = [] := by
  obtain ⟨applied, hFind⟩ : ∃ applied, directives.find?
      (fun applied => !(sourceNames applied.arguments).isEmpty) = some applied := by
    rw [← Option.isSome_iff_exists, List.find?_isSome]
    simpa using h
  obtain ⟨hNamed, before, after, hSplit, hBefore⟩ := List.find?_eq_some_iff_append.mp hFind
  exact ⟨before, applied, after, hSplit, by simpa using hNamed, by simpa using hBefore⟩

/-- The source of a model agrees with the one that is reported exactly where the two
readings of the names meet. They do where nothing is repeated: one directive for the
source at most, with one name at most. -/
theorem sourceAgrees_iff (h : model options type = .ok m)
    (hTexts : ∀ applied ∈ type.directives, applied.name = sourceDirective →
      NamesAreTexts applied.arguments) :
    (SourceAgrees options m ↔ ReadingsMeet options type.directives) ∧
    ((sourceDirectives type.directives).length ≤ 1 →
      (∀ applied ∈ sourceDirectives type.directives, (sourceNames applied.arguments).length ≤ 1) →
      SourceAgrees options m) := by
  have hIff : SourceAgrees options m ↔ ReadingsMeet options type.directives := by
    constructor
    · intro hAgrees before applied after hSources hBefore hNamed
      obtain ⟨hReported, hSource⟩ := source_of_first_named h hTexts hSources hBefore hNamed
      rw [List.getLast?_eq_some_getLast hNamed] at hReported ⊢
      rw [SourceAgrees, hReported] at hAgrees
      rw [hSource, Value.text.inj hAgrees]
    · intro hMeet
      by_cases hNone : ∀ applied ∈ sourceDirectives type.directives,
          sourceNames applied.arguments = []
      · obtain ⟨hReported, hDefault⟩ := source_of_none_named h hTexts hNone
        rw [SourceAgrees, hReported]
        exact hDefault
      · obtain ⟨before, applied, after, hSources, hNamed, hBefore⟩ := exists_first_named hNone
        obtain ⟨hReported, hSource⟩ := source_of_first_named h hTexts hSources hBefore hNamed
        rw [SourceAgrees, hReported, ← hMeet before applied after hSources hBefore hNamed, hSource]
        rfl
  refine ⟨hIff, fun hOne hNames => hIff.mpr ?_⟩
  intro before applied after hSources _ hNamed
  have hBefore : before = [] := by
    rw [hSources, List.length_append, List.length_cons] at hOne
    exact List.eq_nil_of_length_eq_zero (by omega)
  obtain ⟨name, names, hList⟩ := List.exists_cons_of_ne_nil hNamed
  have hLength := hNames applied (by simp [hSources])
  rw [hList, List.length_cons] at hLength
  have hRest : names = [] := List.eq_nil_of_length_eq_zero (by omega)
  rw [if_pos hBefore, hList, hRest]
  rfl

end

/-- A type with two directives for the source. The first name in the first of them is
also the last one there. -/
def returningName : ObjectType := ⟨"Order", [],
  [⟨"sql_table", [("name", .text "orders")]⟩,
    ⟨"source", [("name", .text "crm"), ("name", .text "erp"), ("name", .text "crm")]⟩,
    ⟨"source", [("name", .text "erp")]⟩],
  [.field ⟨none, "id", [], .named "ID", []⟩]⟩

/-- The model of this type. -/
def returningNameModel : Model := ⟨"Order", "crm",
  [⟨"id", .primitive .uuid, false, false, []⟩],
  [⟨"table", some "sql", [("name", .text "orders")]⟩, ⟨"source", none, [("name", .text "crm")]⟩,
    ⟨"source", none, [("name", .text "erp")]⟩]⟩

theorem returningName_agrees :
    model ⟨some "main", .provider⟩ returningName = .ok returningNameModel ∧
      (∀ applied ∈ returningName.directives, applied.name = sourceDirective →
        NamesAreTexts applied.arguments) ∧
      SourceAgrees ⟨some "main", .provider⟩ returningNameModel ∧
      ReadingsMeet ⟨some "main", .provider⟩ returningName.directives := by
  have hModel : model ⟨some "main", .provider⟩ returningName = .ok returningNameModel := by rfl
  have hTexts : ∀ applied ∈ returningName.directives, applied.name = sourceDirective →
      NamesAreTexts applied.arguments := by
    simp only [returningName, NamesAreTexts, List.forall_mem_cons]
    simp
  have hAgrees : SourceAgrees ⟨some "main", .provider⟩ returningNameModel := by rfl
  exact ⟨hModel, hTexts, hAgrees, (sourceAgrees_iff hModel hTexts).1.mp hAgrees⟩

/-- A directive for the source with two names. -/
def twoNames : ObjectType :=
  ⟨"T", [], [⟨"source", [("name", .text "a"), ("name", .text "b")]⟩], []⟩

/-- Two directives for the source, of which only the second has a name. -/
def lateName : ObjectType :=
  ⟨"T", [], [⟨"source", []⟩, ⟨"source", [("name", .text "a")]⟩], []⟩

/-- The source is not always the one that is reported: the first of two names is the
source and the second is reported, and a name in a second directive is reported but
does not keep the default from being the source. -/
theorem source_disagrees :
    (∃ m, model ⟨some "main", .plain⟩ twoNames = .ok m ∧ m.source = "a" ∧
      m.reportedSource? = some (.text "b") ∧ ¬SourceAgrees ⟨some "main", .plain⟩ m) ∧
    (∃ m, model ⟨some "main", .plain⟩ lateName = .ok m ∧ m.source = "main" ∧
      m.reportedSource? = some (.text "a") ∧ ¬SourceAgrees ⟨some "main", .plain⟩ m) ∧
    ∀ type ∈ [twoNames, lateName], ∀ applied ∈ type.directives,
      applied.name = sourceDirective → NamesAreTexts applied.arguments := by
  have hNot {options : Options} {m : Model} (reported : String)
      (hReported : m.reportedSource? = some (.text reported)) (hOther : reported ≠ m.source) :
      ¬SourceAgrees options m := by
    rw [SourceAgrees, hReported]
    exact fun h => hOther (Value.text.inj h)
  refine ⟨⟨_, rfl, rfl, rfl, hNot "b" rfl (by decide)⟩,
    ⟨_, rfl, rfl, rfl, hNot "a" rfl (by decide)⟩, ?_⟩
  simp only [twoNames, lateName, NamesAreTexts, List.forall_mem_cons]
  simp

end Build
end SchemaModels
