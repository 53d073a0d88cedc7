import SchemaModels.Proofs.Build.FaultKinds
import SchemaModels.Proofs.Build.Parts
import SchemaModels.Proofs.Restriction

/-!
The two conventions of names side by side. Names with a provider are split at their
first underscore, and joining the parts again gives the plain names. So whatever is
built under the one convention is built under the other as well, if all names can be
split.
-/
namespace SchemaModels

/-- A name that has an underscore with a text on either side of the first one. -/
def Splits (name : String) : Prop :=
  ∃ first rest, name.toList = first ++ '_' :: rest ∧ '_' ∉ first ∧ first ≠ [] ∧ rest ≠ []

/-- The directive with the provider put back in front of its name. -/
def Directive.joined (d : Directive) : Directive :=
  match d.provider with
  | none => d
  | some provider => ⟨provider ++ "_" ++ d.name, none, d.args⟩

def Field.joined (f : Field) : Field := { f with directives := f.directives.map Directive.joined }

def Model.joined (m : Model) : Model :=
  { m with fields := m.fields.map Field.joined, directives := m.directives.map Directive.joined }

namespace Naming

/-- A text is taken apart at its first underscore. -/
theorem eq_append_iff {raw first rest : List Char} :
    raw = first ++ '_' :: rest ∧ '_' ∉ first ↔
      raw.takeWhile (· != '_') = first ∧ raw.dropWhile (· != '_') = '_' :: rest := by
  constructor
  · rintro ⟨rfl, hFirst⟩
    have hAll : ∀ c ∈ first, (c != '_') = true := by
      intro c hc
      rw [bne_iff_ne]
      rintro rfl
      exact hFirst hc
    constructor
    · rw [List.takeWhile_append_of_pos hAll, List.takeWhile_cons_of_neg (by simp), List.append_nil]
    · rw [List.dropWhile_append_of_pos hAll, List.dropWhile_cons_of_neg (by simp)]
  · rintro ⟨rfl, hRest⟩
    refine ⟨by rw [← hRest, List.takeWhile_append_dropWhile], fun hMem => ?_⟩
    simpa using List.mem_takeWhile_imp hMem

/-- The name behind the underscore is one line, and a line feed that ends it is not part
of it. -/
theorem nameAfterProvider?_eq_some_iff {rest name : List Char} :
    nameAfterProvider? rest = some name ↔
      name ≠ [] ∧ '\n' ∉ name ∧ (rest = name ∨ rest = name ++ ['\n']) := by
  unfold nameAfterProvider?
  dsimp only
  constructor
  · intro h
    split_ifs at h with hRefused
    obtain rfl := Option.some.inj h
    simp only [Bool.or_eq_true, List.isEmpty_iff, Bool.not_eq_true', Bool.or_eq_false_iff,
      not_or, not_and, Bool.not_eq_false, beq_iff_eq] at hRefused
    refine ⟨hRefused.1, fun hFeed => by simpa using List.mem_takeWhile_imp hFeed, ?_⟩
    have hRest := List.takeWhile_append_dropWhile (p := (· != '\n')) (l := rest)
    by_cases hEnd : rest.dropWhile (· != '\n') = []
    · rw [hEnd, List.append_nil] at hRest
      exact .inl hRest.symm
    · rw [hRefused.2 (by simpa using hEnd)] at hRest
      exact .inr hRest.symm
  · rintro ⟨hName, hFeed, hRest⟩
    have hAll : ∀ c ∈ name, (c != '\n') = true := by
      intro c hc
      rw [bne_iff_ne]
      rintro rfl
      exact hFeed hc
    rcases hRest with rfl | rfl
    · simp [List.takeWhile_eq_self_iff.mpr hAll, List.dropWhile_eq_nil_iff.mpr hAll, hName]
    · simp [List.takeWhile_append_of_pos hAll, List.dropWhile_append_of_pos hAll, hName]

theorem splitProvider?_eq_some_iff {raw first name : List Char} :
    splitProvider? raw = some (first, name) ↔ first ≠ [] ∧ ∃ rest,
      raw = first ++ '_' :: rest ∧ '_' ∉ first ∧ nameAfterProvider? rest = some name := by
  simp only [← and_assoc, eq_append_iff]
  unfold splitProvider?
  cases hDrop : raw.dropWhile (· != '_') with
  | nil => simp
  | cons c rest =>
      have hMark : c = '_' := by
        have hHead := List.head?_dropWhile_not (fun d => d != '_') raw
        rw [hDrop] at hHead
        simpa using hHead
      subst hMark
      simp only [List.cons.injEq, true_and, List.isEmpty_iff]
      split_ifs with hFirst
      · simp only [false_iff, not_exists, not_and]
        intro hNe _ hSame
        exact absurd (hSame.1.symm.trans hFirst) hNe
      · simp only [Option.map_eq_some_iff, Prod.mk.injEq]
        constructor
        · rintro ⟨_, hName, rfl, rfl⟩
          exact ⟨hFirst, rest, ⟨rfl, rfl⟩, hName⟩
        · rintro ⟨-, _, ⟨rfl, rfl⟩, hName⟩
          exact ⟨name, hName, rfl, rfl⟩

/-- Under the convention with providers a name of one line is read exactly if it
splits, and the parts make up the name again. -/
theorem read?_provider_eq_some_iff {raw : String} {name : DirectiveName}
    (hLine : '\n' ∉ raw.toList) :
    provider.read? raw = some name ↔ ∃ first rest, raw.toList = first ++ '_' :: rest ∧
      '_' ∉ first ∧ first ≠ [] ∧ rest ≠ [] ∧
      ⟨String.ofList rest, some (String.ofList first)⟩ = name := by
  have hRest {first rest : List Char} (hRaw : raw.toList = first ++ '_' :: rest) :
      '\n' ∉ rest := by
    intro hFeed
    exact hLine (hRaw ▸ List.mem_append_right _ (List.mem_cons_of_mem _ hFeed))
  rw [read?, Option.map_eq_some_iff]
  constructor
  · rintro ⟨⟨first, name⟩, hSplit, rfl⟩
    obtain ⟨hFirst, rest, hRaw, hMark, hName⟩ := splitProvider?_eq_some_iff.mp hSplit
    obtain ⟨hNe, -, rfl | rfl⟩ := nameAfterProvider?_eq_some_iff.mp hName
    · exact ⟨first, rest, hRaw, hMark, hFirst, hNe, rfl⟩
    · exact absurd (List.mem_append_right _ (List.mem_singleton_self _)) (hRest hRaw)
  · rintro ⟨first, rest, hRaw, hMark, hFirst, hNe, rfl⟩
    have hName := nameAfterProvider?_eq_some_iff.mpr ⟨hNe, hRest hRaw, .inl rfl⟩
    exact ⟨(first, rest), splitProvider?_eq_some_iff.mpr ⟨hFirst, rest, hRaw, hMark, hName⟩, rfl⟩

end Naming

namespace Build

open Graphql

/-- The parts of a name, put together again. -/
theorem joined_of_split {raw : String} {first rest : List Char}
    (hRaw : raw.toList = first ++ '_' :: rest) (args : List (String × Value)) :
    Directive.joined ⟨String.ofList rest, some (String.ofList first), args⟩ =
      ⟨raw, none, args⟩ := by
  have hText : String.ofList first ++ "_" ++ String.ofList rest = raw := by
    rw [← String.toList_inj, String.toList_append, String.toList_append, hRaw]
    simp
  simp only [Directive.joined, hText]

/-- A directive under the two conventions. -/
theorem directive_restricts {applied : AppliedDirective} (hLine : '\n' ∉ applied.name.toList) :
    Restricts (Splits applied.name) Directive.joined (directive .provider applied)
      (directive .plain applied) where
  sound h := by
    obtain ⟨name, args, hName, hArgs, rfl⟩ := directive_eq_ok_iff.mp h
    obtain ⟨first, rest, hRaw, hMark, hFirst, hRest, rfl⟩ :=
      (Naming.read?_provider_eq_some_iff hLine).mp hName
    refine ⟨⟨first, rest, hRaw, hMark, hFirst, hRest⟩, ?_⟩
    rw [joined_of_split hRaw]
    exact directive_eq_ok_iff.mpr ⟨_, args, rfl, hArgs, rfl⟩
  complete := by
    rintro d ⟨first, rest, hRaw, hMark, hFirst, hRest⟩ h
    obtain ⟨_, args, _, hArgs, -⟩ := directive_eq_ok_iff.mp h
    exact ⟨_, directive_eq_ok_iff.mpr ⟨_, args, (Naming.read?_provider_eq_some_iff hLine).mpr
      ⟨first, rest, hRaw, hMark, hFirst, hRest, rfl⟩, hArgs, rfl⟩⟩

/-- A directive that has a plain name under both conventions. -/
theorem plainDirective_restricts (applied : AppliedDirective) :
    Restricts True Directive.joined (directive .plain applied) (directive .plain applied) where
  sound h := by
    obtain ⟨name, args, hName, hArgs, rfl⟩ := directive_eq_ok_iff.mp h
    cases hName
    exact ⟨trivial, h⟩
  complete _ h := ⟨_, h⟩

theorem modelDirective_restricts {applied : AppliedDirective}
    (hLine : '\n' ∉ applied.name.toList) :
    Restricts (applied.name ≠ sourceDirective → Splits applied.name) Directive.joined
      (modelDirective .provider applied) (modelDirective .plain applied) := by
  unfold modelDirective
  by_cases hSource : applied.name = sourceDirective
  · rw [if_pos ((isSource_iff applied).mpr hSource), ite_self]
    exact (plainDirective_restricts applied).congr (by simp [hSource])
  · rw [if_neg fun h => hSource ((isSource_iff applied).mp h), ite_self]
    exact (directive_restricts hLine).congr (by simp [hSource])

/-- All names but that of the directive for the source can be split. -/
def NamesSplit (annotations : List AppliedDirective) : Prop :=
  ∀ applied ∈ annotations, applied.name ≠ sourceDirective → Splits applied.name

/-- All names are of one line. -/
def NamesOfOneLine (annotations : List AppliedDirective) : Prop :=
  ∀ applied ∈ annotations, '\n' ∉ applied.name.toList

theorem field_restricts (default : Option String) {member : Member}
    (hLines : NamesOfOneLine member.directives) :
    Restricts (NamesSplit member.directives) Field.joined (field ⟨default, .provider⟩ member)
      (field ⟨default, .plain⟩ member) := by
  cases member with
  | other kind => exact .error ..
  | field definition =>
      have hDirectives : Restricts
          (∀ applied ∈ definition.directives.filter (!isSource ·), Splits applied.name)
          (List.map Directive.joined)
          ((definition.directives.filter (!isSource ·)).mapM (directive .provider))
          ((definition.directives.filter (!isSource ·)).mapM (directive .plain)) :=
        Restricts.mapM fun applied hApplied =>
          directive_restricts (hLines applied (List.mem_of_mem_filter hApplied))
      refine ((Restricts.self (fieldShape default definition.type)).bind fun _ =>
        hDirectives.bind_pure fun _ => by rfl).congr ?_
      simp [NamesSplit, Member.directives, isSource]

end Build

/-- The directives of an object type and those of its fields. -/
def Graphql.ObjectType.annotations (type : Graphql.ObjectType) : List Graphql.AppliedDirective :=
  type.fields.flatMap Graphql.Member.directives ++ type.directives

def Graphql.Definition.annotations : Graphql.Definition → List Graphql.AppliedDirective
  | .declaration _ (.object type) => type.annotations
  | _ => []

/-- The directives of the object types in a document and those of their fields. -/
def Graphql.Document.annotations (document : Graphql.Document) : List Graphql.AppliedDirective :=
  document.definitions.flatMap Graphql.Definition.annotations

namespace Build

open Graphql

theorem model_restricts (default : Option String) {type : ObjectType}
    (hLines : NamesOfOneLine type.annotations) :
    Restricts (NamesSplit type.annotations) Model.joined (model ⟨default, .provider⟩ type)
      (model ⟨default, .plain⟩ type) := by
  rw [NamesOfOneLine, ObjectType.annotations, List.forall_mem_append,
    List.forall_mem_flatMap] at hLines
  have hFields := Restricts.mapM fun member hMember =>
    field_restricts default (hLines.1 member hMember)
  have hDirectives := Restricts.mapM fun applied hApplied =>
    modelDirective_restricts (hLines.2 applied hApplied)
  refine ((Restricts.self (source ⟨default, .plain⟩ type)).bind fun _ => hFields.bind fun _ =>
    hDirectives.bind_pure fun _ => by rfl).congr ?_
  rw [true_and, NamesSplit, ObjectType.annotations, List.forall_mem_append, List.forall_mem_flatMap]
  rfl

theorem definition_restricts (default : Option String) {d : Definition}
    (hLines : NamesOfOneLine d.annotations) :
    Restricts (NamesSplit d.annotations) Model.joined (definition ⟨default, .provider⟩ d)
      (definition ⟨default, .plain⟩ d) := by
  cases d with
  | declaration description declared =>
      cases declared with
      | object type => exact model_restricts default hLines
      | _ => exact .error ..
  | _ => exact .error ..

/-- A document under the two conventions. -/
theorem document_restricts (default : Option String) {given : Document}
    (hLines : NamesOfOneLine given.annotations) :
    Restricts (NamesSplit given.annotations) (List.map Model.joined)
      (document ⟨default, .provider⟩ given) (document ⟨default, .plain⟩ given) := by
  rw [NamesOfOneLine, Document.annotations, List.forall_mem_flatMap] at hLines
  refine (Restricts.mapM fun d hd => definition_restricts default (hLines d hd)).congr ?_
  rw [NamesSplit, Document.annotations, List.forall_mem_flatMap]
  rfl

end Build
end SchemaModels
