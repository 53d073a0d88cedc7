import SchemaModels.Proofs.Model.Values
import SchemaModels.Proofs.Text.CodePoint

/-!
Models whose texts are changed one by one. What is said of numbers and of the shape of
values stays true, and keys stay distinct where different texts stay different. The code
points of strings are such a change, and those of code points are no change at all.
-/
namespace SchemaModels

variable {τ σ : Type}

namespace Value

section

variable {f : τ → σ}

theorem mapFields_keys (f : τ → σ) (fields : List (τ × Value τ)) :
    (mapFields f fields).map Prod.fst = (fields.map Prod.fst).map f := by
  induction fields with
  | nil => rfl
  | cons field rest ih => rw [mapFields, List.map_cons, ih, List.map_cons, List.map_cons]

variable {p : Value σ → Prop}

mutual
/-- A property of all changed values is one of all values before the change. -/
theorem every_mapTexts_iff {v : Value τ} :
    (v.mapTexts f).Every p ↔ v.Every fun w => p (w.mapTexts f) := by
  cases v with
  | list items =>
      rw [mapTexts, Every, Every, mapTexts]
      exact and_congr Iff.rfl everyItem_mapItems_iff
  | object fields =>
      rw [mapTexts, Every, Every, mapTexts]
      exact and_congr Iff.rfl everyField_mapFields_iff
  | _ => exact Iff.rfl

theorem everyItem_mapItems_iff {items : List (Value τ)} :
    EveryItem p (mapItems f items) ↔ EveryItem (fun w => p (w.mapTexts f)) items := by
  cases items with
  | nil => exact Iff.rfl
  | cons item rest =>
      rw [mapItems, EveryItem, EveryItem]
      exact and_congr every_mapTexts_iff everyItem_mapItems_iff

theorem everyField_mapFields_iff {fields : List (τ × Value τ)} :
    EveryField p (mapFields f fields) ↔ EveryField (fun w => p (w.mapTexts f)) fields := by
  cases fields with
  | nil => exact Iff.rfl
  | cons field rest =>
      rw [mapFields, EveryField, EveryField]
      exact and_congr every_mapTexts_iff everyField_mapFields_iff
end

theorem hasDistinctKeys_mapTexts_iff (hInjective : Function.Injective f) {v : Value τ} :
    (v.mapTexts f).HasDistinctKeys ↔ v.HasDistinctKeys := by
  cases v with
  | object fields =>
      rw [mapTexts, HasDistinctKeys, HasDistinctKeys, mapFields_keys]
      exact List.nodup_map_iff hInjective
  | _ => exact Iff.rfl

theorem hasFewDigits_mapTexts_iff {v : Value τ} :
    (v.mapTexts f).HasFewDigits ↔ v.HasFewDigits := by
  cases v <;> exact Iff.rfl

theorem hasTexts_mapTexts {p : σ → Prop} (h : ∀ s, p (f s)) (v : Value τ) :
    (v.mapTexts f).HasTexts p := by
  cases v with
  | text s => exact h s
  | object fields =>
      rw [mapTexts, HasTexts, mapFields_keys, List.forall_mem_map]
      exact fun key _ => h key
  | _ => trivial

end

mutual
theorem every_of_forall {p : Value τ → Prop} (h : ∀ v, p v) (v : Value τ) : v.Every p := by
  cases v with
  | list items => exact ⟨h _, everyItem_of_forall h items⟩
  | object fields => exact ⟨h _, everyField_of_forall h fields⟩
  | _ => exact h _

theorem everyItem_of_forall {p : Value τ → Prop} (h : ∀ v, p v) (items : List (Value τ)) :
    EveryItem p items := by
  cases items with
  | nil => trivial
  | cons item rest => exact ⟨every_of_forall h item, everyItem_of_forall h rest⟩

theorem everyField_of_forall {p : Value τ → Prop} (h : ∀ v, p v) (fields : List (τ × Value τ)) :
    EveryField p fields := by
  cases fields with
  | nil => trivial
  | cons field rest => exact ⟨every_of_forall h field.2, everyField_of_forall h rest⟩
end

mutual
theorem mapTexts_id (v : Value τ) : v.mapTexts id = v := by
  cases v with
  | list items => rw [mapTexts, mapItems_id items]
  | object fields => rw [mapTexts, mapFields_id fields]
  | _ => rfl

theorem mapItems_id (items : List (Value τ)) : mapItems id items = items := by
  cases items with
  | nil => rfl
  | cons item rest => rw [mapItems, mapTexts_id item, mapItems_id rest]

theorem mapFields_id (fields : List (τ × Value τ)) : mapFields id fields = fields := by
  cases fields with
  | nil => rfl
  | cons field rest => rw [mapFields, mapTexts_id field.2, mapFields_id rest, id]
end

end Value

theorem FieldType.mapTexts_id (t : FieldType τ) : t.mapTexts id = t := by
  cases t with
  | primitive kind => rfl
  | reference model source => rw [mapTexts, Option.map_id, id, id]

theorem Directive.mapTexts_id (d : Directive τ) : d.mapTexts id = d := by
  rw [mapTexts, Option.map_id, Value.mapFields_id, id, id]

theorem Field.mapTexts_id (f : Field τ) : f.mapTexts id = f := by
  rw [mapTexts, FieldType.mapTexts_id, List.map_id'' Directive.mapTexts_id, id]

theorem Model.mapTexts_id (m : Model τ) : m.mapTexts id = m := by
  rw [mapTexts, List.map_id'' Field.mapTexts_id, List.map_id'' Directive.mapTexts_id, id, id]

/-- Code points are coded as they are. -/
theorem Model.coded_eq_self (m : Model CodeText) : m.coded = m := m.mapTexts_id

section

variable {f : τ → σ} {p : Value σ → Prop}

theorem Directive.every_mapTexts_iff {d : Directive τ} :
    (d.mapTexts f).Every p ↔ d.Every fun w => p (w.mapTexts f) :=
  Value.every_mapTexts_iff (v := .object d.args)

theorem Field.every_mapTexts_iff {field : Field τ} :
    (field.mapTexts f).Every p ↔ field.Every fun w => p (w.mapTexts f) := by
  simp only [Every, mapTexts, List.forall_mem_map, Directive.every_mapTexts_iff]

theorem Model.every_mapTexts_iff {m : Model τ} :
    (m.mapTexts f).Every p ↔ m.Every fun w => p (w.mapTexts f) := by
  simp only [Every, mapTexts, List.forall_mem_map, Field.every_mapTexts_iff,
    Directive.every_mapTexts_iff]

end

section

variable {f : τ → σ} {p : σ → Prop} (h : ∀ s, p (f s))
include h

theorem FieldType.everyText_mapTexts (t : FieldType τ) : (t.mapTexts f).EveryText p := by
  cases t with
  | primitive kind => trivial
  | reference model source =>
      refine ⟨h model, ?_⟩
      simp only [Option.mem_def, Option.map_eq_some_iff]
      rintro s ⟨given, -, rfl⟩
      exact h given

theorem Directive.everyText_mapTexts (d : Directive τ) : (d.mapTexts f).EveryText p := by
  refine ⟨h d.name, ?_, every_mapTexts_iff.mpr
    (Value.every_of_forall (Value.hasTexts_mapTexts h) (.object d.args))⟩
  simp only [mapTexts, Option.mem_def, Option.map_eq_some_iff]
  rintro s ⟨given, -, rfl⟩
  exact h given

theorem Field.everyText_mapTexts (field : Field τ) : (field.mapTexts f).EveryText p := by
  refine ⟨h field.name, field.type.everyText_mapTexts h, ?_⟩
  rw [mapTexts, List.forall_mem_map]
  exact fun d _ => d.everyText_mapTexts h

/-- What holds of every changed text holds of all texts of a changed model. -/
theorem Model.everyText_mapTexts (m : Model τ) : (m.mapTexts f).EveryText p := by
  refine ⟨h m.name, h m.source, ?_, ?_⟩
  · rw [mapTexts, List.forall_mem_map]
    exact fun field _ => field.everyText_mapTexts h
  · rw [mapTexts, List.forall_mem_map]
    exact fun d _ => d.everyText_mapTexts h

end

namespace Model

variable [Coded τ] {m : Model τ}

theorem coded_distinctKeys_iff :
    m.coded.Every Value.HasDistinctKeys ↔ m.Every Value.HasDistinctKeys := by
  rw [coded, every_mapTexts_iff]
  simp only [Value.hasDistinctKeys_mapTexts_iff fun a b => Coded.injective (τ := τ) a b]

theorem coded_fewDigits_iff : m.coded.Every Value.HasFewDigits ↔ m.Every Value.HasFewDigits := by
  rw [coded, every_mapTexts_iff]
  simp only [Value.hasFewDigits_mapTexts_iff]

/-- Strings have no surrogates. -/
theorem coded_isJoined (m : Model) : m.coded.EveryText CodeText.IsJoined :=
  m.everyText_mapTexts CodeText.isJoined_ofString

end Model
end SchemaModels
