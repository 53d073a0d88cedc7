import SchemaModels.Artifact.File
import SchemaModels.Proofs.Files.Written
import SchemaModels.Proofs.Json.RoundTrip
import SchemaModels.Proofs.Model.Coded

/-!
Reading an artifact that was written gives the models back, with everything in
its order: through the records, through the JSON text, and through a file.
-/
namespace SchemaModels

open Artifact (member memberOr members items)
open CodeText (IsJoined)
open Value (HasDistinctKeys HasFewDigits HasTexts)

namespace Value

theorem encodeFields_keys (fields : List (CodeText × Value CodeText)) :
    (encodeFields fields).map Prod.fst = fields.map Prod.fst := by
  induction fields with
  | nil => rfl
  | cons field rest ih => rw [encodeFields, List.map_cons, List.map_cons, ih]

mutual
theorem encode_writable {v : Value CodeText} (hKeys : v.Every HasDistinctKeys)
    (hDigits : v.Every HasFewDigits) (hTexts : v.Every (HasTexts IsJoined)) :
    v.encode.Writable := by
  cases v with
  | null => simp [encode, Json.Writable, Json.WritableMembers]
  | boolean b => simp [encode, Json.Writable, Json.WritableMembers]
  | text s =>
      have hJoined : s.IsJoined := hTexts
      simp [encode, Json.Writable, Json.WritableMembers, hJoined]
  | integer n =>
      have hFew : (Nat.toDigits 10 n.natAbs).length ≤ maxIntegerDigits := hDigits
      simp [encode, Json.Writable, Json.WritableMembers, hFew]
  | float x => simp [encode, Json.Writable, Json.WritableMembers]
  | list items =>
      rw [Every] at hKeys hDigits hTexts
      have hItems := encodeItems_writable hKeys.2 hDigits.2 hTexts.2
      simp [encode, Json.Writable, Json.WritableMembers, hItems]
  | object fields =>
      rw [Every] at hKeys hDigits hTexts
      have hFields := encodeFields_writable hKeys.2 hDigits.2 hTexts.1 hTexts.2
      have hDistinct : ((encodeFields fields).map Prod.fst).Nodup := by
        rw [encodeFields_keys]
        exact hKeys.1
      simp [encode, Json.Writable, Json.WritableMembers, hFields, hDistinct]

theorem encodeItems_writable {items : List (Value CodeText)}
    (hKeys : EveryItem HasDistinctKeys items) (hDigits : EveryItem HasFewDigits items)
    (hTexts : EveryItem (HasTexts IsJoined) items) : Json.WritableItems (encodeItems items) := by
  cases items with
  | nil => trivial
  | cons item rest =>
      rw [EveryItem] at hKeys hDigits hTexts
      rw [encodeItems, Json.WritableItems]
      exact ⟨encode_writable hKeys.1 hDigits.1 hTexts.1,
        encodeItems_writable hKeys.2 hDigits.2 hTexts.2⟩

theorem encodeFields_writable {fields : List (CodeText × Value CodeText)}
    (hKeys : EveryField HasDistinctKeys fields) (hDigits : EveryField HasFewDigits fields)
    (hOwn : ∀ key ∈ fields.map Prod.fst, key.IsJoined)
    (hTexts : EveryField (HasTexts IsJoined) fields) :
    Json.WritableMembers (encodeFields fields) := by
  cases fields with
  | nil => trivial
  | cons field rest =>
      rw [EveryField] at hKeys hDigits hTexts
      rw [List.map_cons, List.forall_mem_cons] at hOwn
      rw [encodeFields, Json.WritableMembers]
      exact ⟨hOwn.1, encode_writable hKeys.1 hDigits.1 hTexts.1,
        encodeFields_writable hKeys.2 hDigits.2 hOwn.2 hTexts.2⟩
end

mutual
/-- A value is read back from its record. -/
theorem decode_encode (v : Value CodeText) : decode v.encode = .ok v := by
  cases v with
  | null => rfl
  | boolean b => rfl
  | text s => rfl
  | integer n => rfl
  | float x => rfl
  | list items =>
      have hItems := decodeItems_encodeItems items
      simp [encode, decode, decodeItemsOf, hItems, Except.map]
  | object fields =>
      have hFields := decodeEntries_encodeFields fields
      simp [encode, decode, decodeFieldsOf, hFields, Except.map]

theorem decodeItems_encodeItems (items : List (Value CodeText)) :
    decodeItems (encodeItems items) = .ok items := by
  cases items with
  | nil => rfl
  | cons item rest =>
      rw [encodeItems, decodeItems, decode_encode item, decodeItems_encodeItems rest]
      rfl

theorem decodeEntries_encodeFields (fields : List (CodeText × Value CodeText)) :
    decodeEntries (encodeFields fields) = .ok fields := by
  cases fields with
  | nil => rfl
  | cons field rest =>
      rw [encodeFields, decodeEntries, decode_encode field.2, decodeEntries_encodeFields rest]
      rfl
end

end Value

theorem FieldType.encode_writable {t : FieldType CodeText} (hTexts : t.EveryText IsJoined) :
    t.encode.Writable := by
  cases t with
  | primitive p => simp [encode, Json.Writable, Json.WritableMembers]
  | reference model source =>
      have hModel := hTexts.1
      have hSource := hTexts.2
      cases source <;>
        simp_all [encode, Artifact.optionalMember, Json.Writable, Json.WritableMembers]

theorem Directive.encode_writable {d : Directive CodeText} (hKeys : d.Every HasDistinctKeys)
    (hDigits : d.Every HasFewDigits) (hTexts : d.EveryText IsJoined) : d.encode.Writable := by
  obtain ⟨hName, hGiven, hTexts⟩ := hTexts
  rw [Every, Value.Every] at hKeys hDigits hTexts
  have hArgs := Value.encodeFields_writable hKeys.2 hDigits.2 hTexts.1 hTexts.2
  have hDistinct : ((Value.encodeFields d.args).map Prod.fst).Nodup := by
    rw [Value.encodeFields_keys]
    exact hKeys.1
  cases hProvider : d.provider with
  | none =>
      simp [encode, hProvider, Artifact.optionalMember, Json.Writable, Json.WritableMembers, hName,
        hArgs, hDistinct]
  | some provider =>
      have hJoined := hGiven provider hProvider
      simp [encode, hProvider, Artifact.optionalMember, Json.Writable, Json.WritableMembers, hName,
        hArgs, hDistinct, hJoined]

theorem writableItems_directives {directives : List (Directive CodeText)}
    (hKeys : ∀ d ∈ directives, d.Every HasDistinctKeys)
    (hDigits : ∀ d ∈ directives, d.Every HasFewDigits)
    (hTexts : ∀ d ∈ directives, d.EveryText IsJoined) :
    Json.WritableItems (directives.map Directive.encode) := by
  apply Json.writableItems_map
  intro d hd
  exact Directive.encode_writable (hKeys d hd) (hDigits d hd) (hTexts d hd)

theorem Field.encode_writable {f : Field CodeText} (hKeys : f.Every HasDistinctKeys)
    (hDigits : f.Every HasFewDigits) (hTexts : f.EveryText IsJoined) : f.encode.Writable := by
  obtain ⟨hName, hTyped, hTexts⟩ := hTexts
  have hType := FieldType.encode_writable hTyped
  have hDirectives := writableItems_directives hKeys hDigits hTexts
  simp [encode, Json.Writable, Json.WritableMembers, hName, hType, hDirectives]

theorem Model.encode_writable {m : Model CodeText} (hKeys : m.Every HasDistinctKeys)
    (hDigits : m.Every HasFewDigits) (hTexts : m.EveryText IsJoined) : m.encode.Writable := by
  obtain ⟨hName, hSource, hFieldTexts, hTexts⟩ := hTexts
  have hFields : Json.WritableItems (m.fields.map Field.encode) := by
    apply Json.writableItems_map
    intro f hf
    exact Field.encode_writable (hKeys.1 f hf) (hDigits.1 f hf) (hFieldTexts f hf)
  have hDirectives := writableItems_directives hKeys.2 hDigits.2 hTexts
  simp [encode, Json.Writable, Json.WritableMembers, hName, hSource, hFields, hDirectives]

theorem Artifact.encode_writable {models : List (Model CodeText)}
    (hKeys : ∀ m ∈ models, m.Every HasDistinctKeys)
    (hDigits : ∀ m ∈ models, m.Every HasFewDigits)
    (hTexts : ∀ m ∈ models, m.EveryText IsJoined) : (encode models).Writable := by
  have hModels : Json.WritableItems (models.map Model.encode) := by
    apply Json.writableItems_map
    intro m hm
    exact Model.encode_writable (hKeys m hm) (hDigits m hm) (hTexts m hm)
  simp [encode, Json.Writable, Json.WritableMembers, hModels]

theorem Primitive.ofLabel?_label (p : Primitive) : ofLabel? p.label = some p := by
  cases p <;> decide

theorem FieldType.decode_encode (t : FieldType CodeText) : decode t.encode = .ok t := by
  cases t with
  | primitive p =>
      have hKind : member (encode (.primitive p)) "kind" = .ok (.text "primitive") := rfl
      have hName : member (encode (.primitive p)) "primitive" = .ok (.text p.label) := rfl
      simp only [decode, hKind, hName, Bind.bind, Except.bind, Json.word?_ofString,
        Option.bind_some, Primitive.ofLabel?_label]
      rfl
  | reference model source =>
      cases source with
      | none => rfl
      | some s => rfl

theorem Directive.decode_encode (d : Directive CodeText) : decode d.encode = .ok d := by
  have hName : member d.encode "name" = .ok (.text d.name) := rfl
  have hArgs : memberOr d.encode "args" (.object []) = .ok (.object (Value.encodeFields d.args)) :=
    rfl
  have hProvider : memberOr d.encode "provider" .null =
      .ok ((d.provider.map Json.text).getD .null) := by
    cases hGiven : d.provider with
    | none =>
        rw [encode, hGiven]
        rfl
    | some s =>
        rw [encode, hGiven]
        rfl
  simp only [decode, hName, hProvider, hArgs, members, Bind.bind, Except.bind,
    Value.decodeEntries_encodeFields]
  obtain ⟨name, provider, args⟩ := d
  cases provider with
  | none => rfl
  | some s => rfl

/-- What decodes each record decodes a list of records. -/
theorem mapM_decode {α ε : Type} {encode : α → Json CodeText} {decode : Json CodeText → Except ε α}
    {items : List α} (h : ∀ item ∈ items, decode (encode item) = .ok item) :
    (items.map encode).mapM decode = .ok items := by
  induction items with
  | nil => rfl
  | cons item rest ih =>
      rw [List.forall_mem_cons] at h
      rw [List.map_cons, List.mapM_cons, h.1, ih h.2]
      rfl

theorem Field.decode_encode (f : Field CodeText) : decode f.encode = .ok f := by
  have hDirectives := mapM_decode fun d (_ : d ∈ f.directives) => d.decode_encode
  have hName : member f.encode "name" = .ok (.text f.name) := rfl
  have hType : member f.encode "type" = .ok f.type.encode := rfl
  have hNonNull : memberOr f.encode "nonNull" (.boolean false) = .ok (.boolean f.nonNull) := rfl
  have hCollection : memberOr f.encode "collection" (.boolean false) =
      .ok (.boolean f.collection) := rfl
  have hList : memberOr f.encode "directives" (.list []) =
      .ok (.list (f.directives.map Directive.encode)) := rfl
  simp only [decode, hName, hType, hNonNull, hCollection, hList, items, Bind.bind, Except.bind,
    FieldType.decode_encode, hDirectives]
  rfl

theorem Model.decode_encode (m : Model CodeText) : decode m.encode = .ok m := by
  have hFields := mapM_decode fun f (_ : f ∈ m.fields) => f.decode_encode
  have hDirectives := mapM_decode fun d (_ : d ∈ m.directives) => d.decode_encode
  have hName : member m.encode "name" = .ok (.text m.name) := rfl
  have hSource : member m.encode "source" = .ok (.text m.source) := rfl
  have hFieldList : memberOr m.encode "fields" (.list []) =
      .ok (.list (m.fields.map Field.encode)) := rfl
  have hDirectiveList : memberOr m.encode "directives" (.list []) =
      .ok (.list (m.directives.map Directive.encode)) := rfl
  simp only [decode, hName, hSource, hFieldList, hDirectiveList, items, Bind.bind, Except.bind,
    hFields, hDirectives]
  rfl

namespace Artifact

theorem decode_encode (models : List (Model CodeText)) : decode (encode models) = .ok models := by
  have hModels := mapM_decode fun m (_ : m ∈ models) => m.decode_encode
  have hMembers : members (encode models) =
      .ok [("v", .text version), ("models", .list (models.map Model.encode))] := rfl
  simp only [decode, hMembers, Bind.bind, Except.bind]
  exact hModels

/-- The code points of texts are written as the texts are. -/
theorem write_coded {τ : Type} [Coded τ] (models : List (Model τ)) :
    write (models.map Model.coded) = write models := by
  rw [write, write, List.map_id'' Model.coded_eq_self]

theorem read_write {models : List (Model CodeText)}
    (hKeys : ∀ m ∈ models, m.Every HasDistinctKeys) (hDigits : ∀ m ∈ models, m.Every HasFewDigits)
    (hTexts : ∀ m ∈ models, m.EveryText IsJoined) : read (write models) = .ok models := by
  have hRead := Json.read_render (encode_writable hKeys hDigits hTexts)
  rw [read, write, List.map_id'' Model.coded_eq_self, hRead]
  exact decode_encode models

/-- The texts of models that are strings are read back as their code points. -/
theorem read_write_coded {models : List Model} (hKeys : ∀ m ∈ models, m.Every HasDistinctKeys)
    (hDigits : ∀ m ∈ models, m.Every HasFewDigits) :
    read (write models) = .ok (models.map Model.coded) := by
  rw [← write_coded]
  refine read_write ?_ ?_ ?_
  · rw [List.forall_mem_map]
    exact fun m hm => Model.coded_distinctKeys_iff.mpr (hKeys m hm)
  · rw [List.forall_mem_map]
    exact fun m hm => Model.coded_fewDigits_iff.mpr (hDigits m hm)
  · rw [List.forall_mem_map]
    exact fun m _ => m.coded_isJoined

/-- What is read from an artifact is read from a file that it was written to. -/
theorem load_save {τ : Type} [Coded τ] {models : List (Model τ)} {found : List (Model CodeText)}
    (hRead : read (write models) = .ok found) {tree written : FileTree} {path : Path}
    (h : save tree path models = (written, none)) : load written path = .ok found := by
  have hText : '\r' ∉ (write models).toList := by
    intro hReturn
    rw [write, Json.render, String.toList_ofList] at hReturn
    have hVisible := Json.write_visible _ _ hReturn
    exact absurd hVisible (by decide)
  rw [load, FileTree.readText_of_writeBelow hText h]
  simp only [hRead]
  rfl

/-- Models with distinct keys, few digits and no surrogates that make a pair are read back
from their artifact with everything in its place, and equal themselves if no double in them
is NaN. Writing them again gives the same text, and a file that was written gives them
back. -/
theorem round_trip {models : List (Model CodeText)}
    (hKeys : ∀ m ∈ models, m.Every HasDistinctKeys) (hDigits : ∀ m ∈ models, m.Every HasFewDigits)
    (hTexts : ∀ m ∈ models, m.EveryText IsJoined) :
    read (write models) = .ok models ∧
    ((∀ m ∈ models, m.Every Value.IsNumber) → equalLists Model.equal models models = true) ∧
    (read (write models)).map write = .ok (write models) ∧
    ∀ (tree written : FileTree) (path : Path),
      save tree path models = (written, none) → load written path = .ok models := by
  have hRead := read_write hKeys hDigits hTexts
  refine ⟨hRead, ?_, ?_, ?_⟩
  · intro hNumbers
    exact equalLists_self fun m hm => Model.equal_self (hKeys m hm) (hNumbers m hm)
  · rw [hRead]
    rfl
  · intro tree written path hSave
    exact load_save hRead hSave

/-- A model with escapes, an infinite double, nested values, and an empty
provider and source. -/
def sampleModels : List (Model CodeText) := [{
  name := "User \"\\\n"
  source := "main"
  fields := [{
    name := "id"
    type := .primitive .uuid
    nonNull := true
    collection := false
    directives := [⟨"range", some "", [("from", .float (.infinite true)), ("to", .list [
      .object [("b", .integer (-7)), ("a", .null)], .text "\t😀", .boolean true])]⟩] }, {
    name := "groups"
    type := .reference "Group" (some "")
    nonNull := false
    collection := true
    directives := [⟨"plain", none, []⟩] }]
  directives := [] }]

theorem sampleModels_distinctKeys : ∀ m ∈ sampleModels, m.Every HasDistinctKeys := by
  simp [sampleModels, Model.Every, Field.Every, Directive.Every, Value.Every, Value.EveryField,
    Value.EveryItem, HasDistinctKeys]

theorem sampleModels_fewDigits : ∀ m ∈ sampleModels, m.Every HasFewDigits := by
  have hSeven : (Nat.toDigits 10 7).length ≤ maxIntegerDigits := by decide
  simp [sampleModels, Model.Every, Field.Every, Directive.Every, Value.Every, Value.EveryField,
    Value.EveryItem, HasFewDigits, hSeven]

theorem sampleModels_joined : ∀ m ∈ sampleModels, m.EveryText IsJoined := by
  simp [sampleModels, Model.EveryText, Field.EveryText, FieldType.EveryText, Directive.EveryText,
    Directive.Every, Value.Every, Value.EveryField, Value.EveryItem, HasTexts, or_imp, forall_and]

theorem sampleModels_numbers : ∀ m ∈ sampleModels, m.Every Value.IsNumber := by
  simp [sampleModels, Model.Every, Field.Every, Directive.Every, Value.Every, Value.EveryField,
    Value.EveryItem, Value.IsNumber]

/-- The sample in a new file below a new directory. -/
theorem sampleModels_round_trip :
    read (write sampleModels) = .ok sampleModels ∧
    equalLists Model.equal sampleModels sampleModels = true ∧
    ∃ written, save ⟨[], []⟩ (.ofText "out/a.json") sampleModels = (written, none) ∧
      load written (.ofText "out/a.json") = .ok sampleModels := by
  have hNone : (save ⟨[], []⟩ (.ofText "out/a.json") sampleModels).2 = none := by
    with_unfolding_all decide
  obtain ⟨hRead, hEqual, -, hLoad⟩ := round_trip sampleModels_distinctKeys sampleModels_fewDigits
    sampleModels_joined
  obtain ⟨written, hSave⟩ : ∃ written,
      save ⟨[], []⟩ (.ofText "out/a.json") sampleModels = (written, none) :=
    ⟨_, Prod.ext rfl hNone⟩
  exact ⟨hRead, hEqual sampleModels_numbers, written, hSave, hLoad _ _ _ hSave⟩

end Artifact
end SchemaModels
