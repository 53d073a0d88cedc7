import Mathlib.Data.List.Induction
import Mathlib.Data.List.Nodup
import SchemaModels.Entries

/-!
Entries whose keys are distinct are kept as they are. Of others each key is kept in
the place where it first occurs, with its last value.
-/
namespace SchemaModels

/-- An item counts where it first occurs. -/
theorem eraseDups_concat {α : Type} [BEq α] [LawfulBEq α] (items : List α) (item : α) :
    (items ++ [item]).eraseDups =
      if item ∈ items then items.eraseDups else items.eraseDups ++ [item] := by
  rw [List.eraseDups_append]
  by_cases h : item ∈ items
  · simp [List.removeAll, h]
  · simp [List.removeAll, h, List.eraseDups_cons]

namespace Entries

variable {κ α β : Type} [BEq κ] [LawfulBEq κ]

theorem put_of_not_mem {entries : Entries κ α} {key : κ} (h : key ∉ entries.map Prod.fst)
    (value : α) : put entries key value = entries ++ [(key, value)] := by
  induction entries with
  | nil => rfl
  | cons entry rest ih =>
      rw [List.map_cons, List.mem_cons, not_or] at h
      have hKey : (entry.1 == key) = false := beq_eq_false_iff_ne.mpr (Ne.symm h.1)
      rw [put, hKey, ih h.2]
      rfl

theorem get?_put_self (entries : Entries κ α) (key : κ) (value : α) :
    get? (put entries key value) key = some value := by
  induction entries with
  | nil => simp [put, get?]
  | cons entry rest ih =>
      by_cases hHead : (entry.1 == key) = true
      · simp [put, get?, hHead]
      · simpa [put, get?, hHead] using ih

/-- Putting leaves the values at the other keys alone. -/
theorem get?_put_of_ne (entries : Entries κ α) {key other : κ} (h : key ≠ other) (value : α) :
    get? (put entries key value) other = get? entries other := by
  have hKey : (key == other) = false := beq_eq_false_iff_ne.mpr h
  induction entries with
  | nil => simp [put, get?, hKey]
  | cons entry rest ih =>
      by_cases hHead : (entry.1 == key) = true
      · have hEntry : (entry.1 == other) = false := by rw [eq_of_beq hHead, hKey]
        simp [put, get?, hHead, hEntry]
      · by_cases hOther : (entry.1 == other) = true
        · simp [put, get?, hHead, hOther]
        · simpa [put, get?, hHead, hOther] using ih

omit [LawfulBEq κ] in
theorem length_le_put (entries : Entries κ α) (key : κ) (value : α) :
    entries.length ≤ (put entries key value).length := by
  induction entries with
  | nil => exact Nat.zero_le _
  | cons entry rest ih =>
      rw [put]
      split
      · exact Nat.le_refl _
      · exact Nat.succ_le_succ ih

/-- Putting a value once more changes nothing. -/
theorem put_put_self (entries : Entries κ α) (key : κ) (value : α) :
    put (put entries key value) key value = put entries key value := by
  induction entries with
  | nil => simp [put]
  | cons entry rest ih =>
      by_cases hHead : (entry.1 == key) = true
      · simp [put, hHead]
      · simp [put, hHead, ih]

/-- A key has a value if some entry has the key. -/
theorem exists_get?_iff {entries : Entries κ α} {key : κ} :
    (∃ value, get? entries key = some value) ↔ ∃ value, (key, value) ∈ entries := by
  rw [← Option.isSome_iff_exists, get?, Option.isSome_map, List.find?_isSome]
  simp

/-- Of the pairs with one key the last gives the value. -/
theorem get?_ofPairs (pairs : List (κ × α)) (key : κ) :
    get? (ofPairs pairs) key = ((pairs.filter (·.1 == key)).getLast?).map Prod.snd := by
  induction pairs using List.reverseRecOn with
  | nil => rfl
  | append_singleton pairs pair ih =>
      rw [ofPairs, List.foldl_append, ← ofPairs, List.foldl_cons, List.foldl_nil,
        List.filter_append]
      by_cases hKey : pair.1 = key
      · simp [hKey, get?_put_self]
      · simp [get?_put_of_ne _ hKey, ih, hKey]

theorem ofPairs_of_nodup {pairs : List (κ × α)} (h : (pairs.map Prod.fst).Nodup) :
    ofPairs pairs = pairs := by
  have hFold (before after : List (κ × α)) (hKeys : ((before ++ after).map Prod.fst).Nodup) :
      after.foldl (fun entries pair => put entries pair.1 pair.2) before = before ++ after := by
    induction after generalizing before with
    | nil => simp
    | cons pair after ih =>
        have hFresh : pair.1 ∉ before.map Prod.fst := by
          rw [List.map_append, List.map_cons, List.nodup_append] at hKeys
          intro hMem
          exact hKeys.2.2 _ hMem _ (List.mem_cons_self ..) rfl
        have hSplit : before ++ pair :: after = before ++ [pair] ++ after := by simp
        rw [List.foldl_cons, put_of_not_mem hFresh, ih _ (hSplit ▸ hKeys), hSplit]
  exact hFold [] pairs h

/-- Putting brings in no entry but its own. -/
theorem mem_of_mem_put {entries : Entries κ α} {key : κ} {value : α} {entry : κ × α}
    (h : entry ∈ put entries key value) : entry ∈ entries ∨ entry = (key, value) := by
  induction entries with
  | nil => exact Or.inr (List.mem_singleton.mp h)
  | cons first rest ih =>
      rw [put] at h
      split at h
      · rename_i hKey
        rcases List.mem_cons.mp h with rfl | hMem
        · exact Or.inr (by rw [eq_of_beq hKey])
        · exact Or.inl (List.mem_cons_of_mem _ hMem)
      · rcases List.mem_cons.mp h with rfl | hMem
        · exact Or.inl (List.mem_cons_self ..)
        · exact (ih hMem).imp_left (List.mem_cons_of_mem _)

theorem put_nodup {entries : Entries κ α} (h : (entries.map Prod.fst).Nodup) (key : κ)
    (value : α) : ((put entries key value).map Prod.fst).Nodup := by
  induction entries with
  | nil => exact List.nodup_singleton key
  | cons first rest ih =>
      have hRest := h
      rw [List.map_cons, List.nodup_cons] at hRest
      rw [put]
      split
      · exact h
      · rename_i hKey
        rw [List.map_cons, List.nodup_cons]
        refine ⟨?_, ih hRest.2⟩
        intro hMem
        obtain ⟨entry, hEntry, hSame⟩ := List.mem_map.mp hMem
        rcases mem_of_mem_put hEntry with hOld | rfl
        · exact hRest.1 (List.mem_map.mpr ⟨entry, hOld, hSame⟩)
        · exact hKey (beq_iff_eq.mpr hSame.symm)

/-- Each key of some pairs is kept once. -/
theorem ofPairs_nodup (pairs : List (κ × α)) : ((ofPairs pairs).map Prod.fst).Nodup := by
  induction pairs using List.reverseRecOn with
  | nil => exact List.nodup_nil
  | append_singleton pairs pair ih =>
      rw [ofPairs, List.foldl_append]
      exact put_nodup ih pair.1 pair.2

/-- All entries come from the pairs. -/
theorem ofPairs_subset (pairs : List (κ × α)) : ofPairs pairs ⊆ pairs := by
  induction pairs using List.reverseRecOn with
  | nil => exact List.Subset.refl _
  | append_singleton pairs pair ih =>
      intro entry hEntry
      rw [ofPairs, List.foldl_append] at hEntry
      rw [List.mem_append, List.mem_singleton]
      exact (mem_of_mem_put hEntry).imp_left fun hMem => ih hMem

theorem lookup_of_nodup {entries : Entries κ α} (h : (entries.map Prod.fst).Nodup) {key : κ}
    {value : α} (hMem : (key, value) ∈ entries) : entries.lookup key = some value := by
  induction entries with
  | nil => cases hMem
  | cons entry rest ih =>
      rw [List.map_cons, List.nodup_cons] at h
      rcases List.mem_cons.mp hMem with rfl | hMem
      · simp
      · have hOther : key ≠ entry.1 := by
          intro hKey
          exact h.1 (List.mem_map.mpr ⟨(key, value), hMem, hKey⟩)
        rw [List.lookup_cons, beq_eq_false_iff_ne.mpr hOther]
        exact ih h.2 hMem

omit [LawfulBEq κ] in
/-- Entries in which each key of some pairs stands where it first occurs there, with the
value of its last occurrence. -/
structure KeepsLast (pairs entries : List (κ × α)) : Prop where
  keys : entries.map Prod.fst = (pairs.map Prod.fst).eraseDups
  values : ∀ entry ∈ entries, ∃ before after,
    pairs = before ++ entry :: after ∧ entry.1 ∉ after.map Prod.fst

theorem map_fst_put (entries : Entries κ α) (key : κ) (value : α) :
    (put entries key value).map Prod.fst =
      if key ∈ entries.map Prod.fst then entries.map Prod.fst
      else entries.map Prod.fst ++ [key] := by
  induction entries with
  | nil => rfl
  | cons entry rest ih =>
      by_cases hHead : (entry.1 == key) = true
      · simp [put, eq_of_beq hHead]
      · have hOther : key ≠ entry.1 := fun h => hHead (beq_iff_eq.mpr h.symm)
        rw [put, if_neg hHead, List.map_cons, ih]
        by_cases hMem : key ∈ rest.map Prod.fst
        · simp [hMem]
        · simp [hMem, hOther]

theorem map_fst_ofPairs (pairs : List (κ × α)) :
    (ofPairs pairs).map Prod.fst = (pairs.map Prod.fst).eraseDups := by
  induction pairs using List.reverseRecOn with
  | nil => rfl
  | append_singleton pairs pair ih =>
      rw [ofPairs, List.foldl_append, ← ofPairs, List.foldl_cons, List.foldl_nil, map_fst_put,
        List.map_append, List.map_singleton, eraseDups_concat, ih]
      simp only [List.mem_eraseDups]

theorem mem_put_self (entries : Entries κ α) (key : κ) (value : α) :
    (key, value) ∈ put entries key value := by
  induction entries with
  | nil => exact List.mem_singleton_self _
  | cons entry rest ih =>
      by_cases hHead : (entry.1 == key) = true
      · simp [put, eq_of_beq hHead]
      · rw [put, if_neg hHead]
        exact List.mem_cons_of_mem _ ih

theorem ofPairs_keepsLast (pairs : List (κ × α)) : KeepsLast pairs (ofPairs pairs) := by
  refine ⟨map_fst_ofPairs pairs, ?_⟩
  induction pairs using List.reverseRecOn with
  | nil => simp [ofPairs]
  | append_singleton pairs pair ih =>
      intro entry hEntry
      rw [ofPairs, List.foldl_append, ← ofPairs, List.foldl_cons, List.foldl_nil] at hEntry
      by_cases hKey : entry.1 = pair.1
      · have hSame : entry = pair :=
          List.inj_on_of_nodup_map (put_nodup (ofPairs_nodup pairs) pair.1 pair.2) hEntry
            (mem_put_self _ _ _) hKey
        exact ⟨pairs, [], by rw [hSame], List.not_mem_nil⟩
      · rcases mem_of_mem_put hEntry with hOld | rfl
        · obtain ⟨before, after, rfl, hAfter⟩ := ih entry hOld
          exact ⟨before, after ++ [pair], by simp, by simp [hAfter, hKey]⟩
        · exact absurd rfl hKey

/-- The entry at a key is the last pair with it. -/
theorem KeepsLast.getLast?_eq {pairs entries : List (κ × α)} (h : KeepsLast pairs entries)
    {entry : κ × α} (hEntry : entry ∈ entries) :
    (pairs.filter (·.1 == entry.1)).getLast? = some entry := by
  obtain ⟨before, after, rfl, hAfter⟩ := h.values entry hEntry
  have hNone : after.filter (·.1 == entry.1) = [] := by
    rw [List.filter_eq_nil_iff]
    intro pair hPair hKey
    exact hAfter (List.mem_map.mpr ⟨pair, hPair, eq_of_beq hKey⟩)
  simp [List.filter_append, hNone]

/-- Only one list of entries keeps the last values of some pairs. -/
theorem keepsLast_iff {pairs entries : List (κ × α)} :
    KeepsLast pairs entries ↔ entries = ofPairs pairs := by
  constructor
  · intro h
    have hKeys : entries.map Prod.fst = (ofPairs pairs).map Prod.fst :=
      h.keys.trans (map_fst_ofPairs pairs).symm
    have hLength := congrArg List.length hKeys
    rw [List.length_map, List.length_map] at hLength
    refine List.ext_getElem hLength fun index hFirst hSecond => ?_
    have hKey : entries[index].1 = (ofPairs pairs)[index].1 := by
      have := congrArg (·[index]?) hKeys
      simpa [hFirst, hSecond] using this
    have hLast := h.getLast?_eq (List.getElem_mem hFirst)
    rw [hKey, (ofPairs_keepsLast pairs).getLast?_eq (List.getElem_mem hSecond)] at hLast
    exact (Option.some.inj hLast).symm
  · rintro rfl
    exact ofPairs_keepsLast pairs

omit [LawfulBEq κ] in
/-- What is kept does not depend on the values. -/
theorem KeepsLast.mapValues {pairs entries : List (κ × α)} (h : KeepsLast pairs entries)
    (f : α → β) : KeepsLast (Entries.mapValues f pairs) (Entries.mapValues f entries) where
  keys := by
    have hKeys (list : List (κ × α)) :
        (Entries.mapValues f list).map Prod.fst = list.map Prod.fst := by
      simp [Entries.mapValues, Function.comp_def]
    rw [hKeys, hKeys, h.keys]
  values := by
    intro entry hEntry
    obtain ⟨given, hGiven, rfl⟩ := List.mem_map.mp hEntry
    obtain ⟨before, after, rfl, hAfter⟩ := h.values given hGiven
    refine ⟨Entries.mapValues f before, Entries.mapValues f after, by simp [Entries.mapValues], ?_⟩
    simpa [Entries.mapValues, Function.comp_def] using hAfter

end Entries
end SchemaModels
