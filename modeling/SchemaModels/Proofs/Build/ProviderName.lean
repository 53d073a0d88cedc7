import SchemaModels.Proofs.Build.Naming

/-!
Names with a provider, over all texts. A name is meant to be split at its first
underscore without loss. It is, unless a line feed stands behind that underscore: the
name ends at the line feed if nothing follows it, and is refused otherwise.
-/
namespace SchemaModels

namespace Naming

/-- What a raw name stands for when it is split at its first underscore. -/
def Halves (raw : String) (name : DirectiveName) : Prop :=
  ∃ first rest, raw.toList = first ++ '_' :: rest ∧ '_' ∉ first ∧ first ≠ [] ∧ rest ≠ [] ∧
    name = ⟨String.ofList rest, some (String.ofList first)⟩

/-- A raw name is read as its halves, and refused if it has none. -/
def KeepsHalves (raw : String) : Prop :=
  ∀ name, provider.read? raw = some name ↔ Halves raw name

/-- A line feed behind the first underscore, which has a text in front of it. -/
def BreaksInName (raw : String) : Prop :=
  ∃ first rest, raw.toList = first ++ '_' :: rest ∧ '_' ∉ first ∧ first ≠ [] ∧ '\n' ∈ rest

theorem exists_halves_iff {raw : String} : (∃ name, Halves raw name) ↔ Splits raw := by
  constructor
  · rintro ⟨_, first, rest, hRaw, hMark, hFirst, hRest, -⟩
    exact ⟨first, rest, hRaw, hMark, hFirst, hRest⟩
  · rintro ⟨first, rest, hRaw, hMark, hFirst, hRest⟩
    exact ⟨_, first, rest, hRaw, hMark, hFirst, hRest, rfl⟩

/-- Under the convention with providers a name is read up to a line feed at its end,
and not at all if it goes on behind one. -/
theorem read?_provider_iff {raw : String} {name : DirectiveName} :
    provider.read? raw = some name ↔ ∃ first line, first ≠ [] ∧ '_' ∉ first ∧ line ≠ [] ∧
      '\n' ∉ line ∧
      (raw.toList = first ++ '_' :: line ∨ raw.toList = first ++ '_' :: (line ++ ['\n'])) ∧
      name = ⟨String.ofList line, some (String.ofList first)⟩ := by
  rw [read?, Option.map_eq_some_iff]
  constructor
  · rintro ⟨⟨first, line⟩, hSplit, rfl⟩
    obtain ⟨hFirst, rest, hRaw, hMark, hLine⟩ := splitProvider?_eq_some_iff.mp hSplit
    obtain ⟨hNe, hFeed, hRest⟩ := nameAfterProvider?_eq_some_iff.mp hLine
    refine ⟨first, line, hFirst, hMark, hNe, hFeed, ?_, rfl⟩
    rcases hRest with rfl | rfl
    · exact .inl hRaw
    · exact .inr hRaw
  · rintro ⟨first, line, hFirst, hMark, hNe, hFeed, hRaw, rfl⟩
    refine ⟨(first, line), splitProvider?_eq_some_iff.mpr ⟨hFirst, ?_⟩, rfl⟩
    rcases hRaw with hRaw | hRaw
    · exact ⟨_, hRaw, hMark, nameAfterProvider?_eq_some_iff.mpr ⟨hNe, hFeed, .inl rfl⟩⟩
    · exact ⟨_, hRaw, hMark, nameAfterProvider?_eq_some_iff.mpr ⟨hNe, hFeed, .inr rfl⟩⟩

theorem keepsHalves_iff {raw : String} : KeepsHalves raw ↔ ¬BreaksInName raw := by
  constructor
  · rintro hKeeps ⟨first, rest, hRaw, hMark, hFirst, hFeed⟩
    have hHalves : Halves raw ⟨String.ofList rest, some (String.ofList first)⟩ :=
      ⟨first, rest, hRaw, hMark, hFirst, List.ne_nil_of_mem hFeed, rfl⟩
    obtain ⟨first', line, -, hMark', -, hLine, -, hName⟩ :=
      read?_provider_iff.mp ((hKeeps _).mpr hHalves)
    simp only [DirectiveName.mk.injEq, String.ofList_inj] at hName
    exact hLine (hName.1 ▸ hFeed)
  · intro hOneLine name
    rw [read?_provider_iff]
    constructor
    · rintro ⟨first, line, hFirst, hMark, hNe, -, hRaw | hRaw, rfl⟩
      · exact ⟨first, line, hRaw, hMark, hFirst, hNe, rfl⟩
      · exact absurd ⟨first, _, hRaw, hMark, hFirst, by simp⟩ hOneLine
    · rintro ⟨first, rest, hRaw, hMark, hFirst, hRest, rfl⟩
      have hFeed : '\n' ∉ rest := fun hFeed => hOneLine ⟨first, rest, hRaw, hMark, hFirst, hFeed⟩
      exact ⟨first, rest, hFirst, hMark, hRest, hFeed, .inl hRaw, rfl⟩

/-- The text of a name with its provider in front. -/
def joinedText (name : DirectiveName) : String :=
  match name.provider with
  | none => name.name
  | some first => first ++ "_" ++ name.name

theorem joinedText_halves {raw : String} {name : DirectiveName} (h : Halves raw name) :
    joinedText name = raw := by
  obtain ⟨first, rest, hRaw, -, -, -, rfl⟩ := h
  rw [joinedText, ← String.toList_inj, hRaw]
  simp

/-- What is read makes up the raw name again, but for a line feed at its end. -/
theorem joinedText_read {raw : String} {name : DirectiveName}
    (h : provider.read? raw = some name) :
    raw = joinedText name ∨ raw = joinedText name ++ "\n" := by
  obtain ⟨first, line, -, -, -, -, hRaw, rfl⟩ := read?_provider_iff.mp h
  simp only [joinedText, ← String.toList_inj]
  rcases hRaw with hRaw | hRaw
  · exact .inl (by simp [hRaw])
  · exact .inr (by simp [hRaw])

end Naming

namespace Build

open Naming (BreaksInName Halves KeepsHalves joinedText)

/-- A directive whose name is refused fails with the raw name, whatever its arguments
are. -/
theorem directive_of_refused {naming : Naming} {raw : String} (h : naming.read? raw = none)
    (args : List (String × Graphql.Literal)) :
    directive naming ⟨raw, args⟩ = .error (.directiveName raw) := by
  simp only [directive, h]
  rfl

/-- A raw name is read as its two halves around the first underscore, and refused with
the raw name if it has none, exactly if no line feed stands behind that underscore. Then
the halves make up the name again, and no other such name has the same ones. In general
a name is read up to a line feed at its end and refused if it goes on behind one, so two
names that are read alike differ at most by a line feed at the end. -/
theorem providerName_lossless_iff (raw : String) :
    (KeepsHalves raw ↔ ¬BreaksInName raw) ∧
    (KeepsHalves raw →
      ((∃ name, Naming.provider.read? raw = some name) ↔ Splits raw) ∧
      (¬Splits raw → ∀ args,
        directive .provider ⟨raw, args⟩ = .error (.directiveName raw)) ∧
      (∀ name, Naming.provider.read? raw = some name → joinedText name = raw) ∧
      ∀ other, KeepsHalves other → ∀ name, Naming.provider.read? raw = some name →
        Naming.provider.read? other = some name → raw = other) ∧
    (∀ name, Naming.provider.read? raw = some name ↔ ∃ first line, first ≠ [] ∧ '_' ∉ first ∧
      line ≠ [] ∧ '\n' ∉ line ∧
      (raw.toList = first ++ '_' :: line ∨ raw.toList = first ++ '_' :: (line ++ ['\n'])) ∧
      name = ⟨String.ofList line, some (String.ofList first)⟩) ∧
    (∀ args, Naming.provider.read? raw = none →
      directive .provider ⟨raw, args⟩ = .error (.directiveName raw)) ∧
    ∀ other name, Naming.provider.read? raw = some name →
      Naming.provider.read? other = some name →
      raw = other ∨ raw = other ++ "\n" ∨ other = raw ++ "\n" := by
  refine ⟨Naming.keepsHalves_iff, fun hKeeps => ⟨?_, ?_, ?_, ?_⟩,
    fun name => Naming.read?_provider_iff, fun args h => directive_of_refused h args, ?_⟩
  · simp only [hKeeps _, Naming.exists_halves_iff]
  · intro hWhole args
    refine directive_of_refused (Option.eq_none_iff_forall_ne_some.mpr fun name hRead => ?_) args
    exact hWhole (Naming.exists_halves_iff.mp ⟨name, (hKeeps name).mp hRead⟩)
  · exact fun name hRead => Naming.joinedText_halves ((hKeeps name).mp hRead)
  · intro other hOther name hRead hReadOther
    rw [← Naming.joinedText_halves ((hKeeps name).mp hRead),
      Naming.joinedText_halves ((hOther name).mp hReadOther)]
  · intro other name hRead hReadOther
    rcases Naming.joinedText_read hRead with hRaw | hRaw <;>
      rcases Naming.joinedText_read hReadOther with hText | hText
    · exact .inl (hRaw.trans hText.symm)
    · exact .inr (.inr (hRaw ▸ hText))
    · exact .inr (.inl (hText ▸ hRaw))
    · exact .inl (hRaw.trans hText.symm)

/-- A name with three underscores, of which the first one counts. -/
theorem severalUnderscores_lossless :
    KeepsHalves "sql_" ∧ KeepsHalves "sql_table__x" ∧
      Naming.provider.read? "sql_table__x" = some ⟨"table__x", some "sql"⟩ ∧
      joinedText ⟨"table__x", some "sql"⟩ = "sql_table__x" ∧
      directive .provider ⟨"sql_", []⟩ = .error (.directiveName "sql_") := by
  have hKeeps (raw : String) (hLine : '\n' ∉ raw.toList) : KeepsHalves raw := by
    refine (providerName_lossless_iff raw).1.mpr ?_
    rintro ⟨first, rest, hRaw, -, -, hFeed⟩
    exact hLine (hRaw ▸ List.mem_append_right _ (List.mem_cons_of_mem _ hFeed))
  have hRead : Naming.provider.read? "sql_table__x" = some ⟨"table__x", some "sql"⟩ := by decide
  have hTable := hKeeps "sql_table__x" (by decide)
  have hHalf := (providerName_lossless_iff "sql_").2.2.2.1
  exact ⟨hKeeps "sql_" (by decide), hTable, hRead,
    ((providerName_lossless_iff "sql_table__x").2.1 hTable).2.2.1 _ hRead, hHalf [] (by decide)⟩

/-- A line feed at the end of a name is lost, so that the name is read like another one,
and a name that goes on behind a line feed is refused although it has both halves. -/
theorem lineFeed_lossy :
    Naming.provider.read? "a_b\n" = some ⟨"b", some "a"⟩ ∧
      Naming.provider.read? "a_b" = some ⟨"b", some "a"⟩ ∧ ¬KeepsHalves "a_b\n" ∧
      directive .provider ⟨"a_b\nc", []⟩ = .error (.directiveName "a_b\nc") ∧
      Splits "a_b\nc" ∧ ¬KeepsHalves "a_b\nc" := by
  have hBreaks (rest : List Char) (hFeed : '\n' ∈ rest) :
      ¬KeepsHalves (String.ofList ('a' :: '_' :: rest)) := by
    rw [Naming.keepsHalves_iff, not_not]
    exact ⟨['a'], rest, by simp, by decide, by decide, hFeed⟩
  exact ⟨by decide, by decide, hBreaks ['b', '\n'] (by decide),
    directive_of_refused (by decide) [], ⟨['a'], ['b', '\n', 'c'], by decide, by decide,
      by decide, by decide⟩, hBreaks ['b', '\n', 'c'] (by decide)⟩

end Build
end SchemaModels
