import SchemaModels.Proofs.Artifact.RoundTrip
import SchemaModels.Proofs.Json.Reading

/-!
Reading any artifact normalizes it. The reader takes much more than the writer
gives: unknown members, absent ones, repeated keys, and numbers and truth values in
other words. Whatever it takes, it gives models that the writer can write.
-/
namespace SchemaModels

open Artifact (members member memberOr items)
open CodeText (IsJoined)
open Json (WritableItems WritableMembers writableItems_iff writableMembers_iff)
open Value (HasDistinctKeys HasFewDigits HasTexts)

variable {P : Value CodeText → Prop}

namespace Checked

variable {α β : Type}

theorem under_eq_valid_iff {step : CodeText} {c : Checked α} {a : α} :
    c.under step = .valid a ↔ c = .valid a := by
  cases c <;> simp [under]

theorem also_eq_valid_iff {f : Checked (α → β)} {c : Checked α} {b : β} :
    f.also c = .valid b ↔ ∃ g a, f = .valid g ∧ c = .valid a ∧ g a = b := by
  cases f <;> cases c <;> simp [also]

theorem map_eq_valid_iff {f : α → β} {c : Checked α} {b : β} :
    c.map f = .valid b ↔ ∃ a, c = .valid a ∧ f a = b := by
  cases c <;> simp [map]

end Checked

theorem Directive.ofChecked_eq_valid_iff {name : Checked CodeText}
    {provider : Checked (Option CodeText)} {args : Checked (List (CodeText × Value CodeText))}
    {d : Directive CodeText} : ofChecked name provider args = .valid d ↔
      name = .valid d.name ∧ provider = .valid d.provider ∧ args = .valid d.args := by
  obtain ⟨a, b, c⟩ := d
  simp only [ofChecked, Checked.also_eq_valid_iff, Checked.map_eq_valid_iff]
  constructor
  · rintro ⟨_, _, ⟨_, _, ⟨_, rfl, rfl⟩, rfl, rfl⟩, rfl, hDirective⟩
    cases hDirective
    exact ⟨rfl, rfl, rfl⟩
  · rintro ⟨rfl, rfl, rfl⟩
    exact ⟨_, _, ⟨_, _, ⟨_, rfl, rfl⟩, rfl, rfl⟩, rfl, rfl⟩

theorem Field.ofChecked_eq_valid_iff {name : Checked CodeText}
    {type : Checked (FieldType CodeText)} {nonNull collection : Checked Bool}
    {directives : Checked (List (Directive CodeText))} {f : Field CodeText} :
    ofChecked name type nonNull collection directives = .valid f ↔
      name = .valid f.name ∧ type = .valid f.type ∧ nonNull = .valid f.nonNull ∧
        collection = .valid f.collection ∧ directives = .valid f.directives := by
  obtain ⟨a, b, c, d, e⟩ := f
  simp only [ofChecked, Checked.also_eq_valid_iff, Checked.map_eq_valid_iff]
  constructor
  · rintro ⟨_, _, ⟨_, _, ⟨_, _, ⟨_, _, ⟨_, rfl, rfl⟩, rfl, rfl⟩, rfl, rfl⟩, rfl, rfl⟩, rfl, hField⟩
    cases hField
    exact ⟨rfl, rfl, rfl, rfl, rfl⟩
  · rintro ⟨rfl, rfl, rfl, rfl, rfl⟩
    exact ⟨_, _, ⟨_, _, ⟨_, _, ⟨_, _, ⟨_, rfl, rfl⟩, rfl, rfl⟩, rfl, rfl⟩, rfl, rfl⟩, rfl, rfl⟩

theorem Model.ofChecked_eq_valid_iff {name source : Checked CodeText}
    {fields : Checked (List (Field CodeText))} {directives : Checked (List (Directive CodeText))}
    {m : Model CodeText} :
    ofChecked name source fields directives = .valid m ↔
      name = .valid m.name ∧ source = .valid m.source ∧ fields = .valid m.fields ∧
        directives = .valid m.directives := by
  obtain ⟨a, b, c, d⟩ := m
  simp only [ofChecked, Checked.also_eq_valid_iff, Checked.map_eq_valid_iff]
  constructor
  · rintro ⟨_, _, ⟨_, _, ⟨_, _, ⟨_, rfl, rfl⟩, rfl, rfl⟩, rfl, rfl⟩, rfl, hModel⟩
    cases hModel
    exact ⟨rfl, rfl, rfl, rfl⟩
  · rintro ⟨rfl, rfl, rfl, rfl⟩
    exact ⟨_, _, ⟨_, _, ⟨_, _, ⟨_, rfl, rfl⟩, rfl, rfl⟩, rfl, rfl⟩, rfl, rfl⟩

namespace Artifact

theorem checked_eq_ok_iff {α : Type} {c : Checked α} {a : α} :
    checked c = .ok a ↔ c = .valid a := by
  cases c <;> simp [checked, Checked.toExcept]

theorem writable_of_named {entries : List (CodeText × Json CodeText)} (h : WritableMembers entries)
    {name : String} {json : Json CodeText} (hNamed : Json.named? entries name = some json) :
    json.Writable := by
  obtain ⟨before, after, rfl, -⟩ := List.lookup_eq_some_iff.mp hNamed
  exact (writableMembers_iff.mp h (CodeText.ofString name, json) (by simp)).2

theorem getD_named_writable {entries : List (CodeText × Json CodeText)}
    (h : WritableMembers entries) (name : String) {absent : Json CodeText}
    (hAbsent : absent.Writable) : ((Json.named? entries name).getD absent).Writable := by
  cases hNamed : Json.named? entries name with
  | none => exact hAbsent
  | some found => exact writable_of_named h hNamed

/-- The value of a scalar record is one that a check lets pass. -/
theorem scalar_eq_ok_iff {α : Type} {json : Json CodeText} {check : Json CodeText → Checked α}
    {a : α} : scalar json check = .ok a ↔
      ∃ given, member json "value" = .ok given ∧ check given = .valid a := by
  simp only [scalar, bind_eq_ok_iff, checked_eq_ok_iff, Checked.under_eq_valid_iff]

theorem members_writable {json : Json CodeText} (h : json.Writable)
    {entries : List (CodeText × Json CodeText)} (hMembers : members json = .ok entries) :
    (Json.object entries).Writable := by
  cases json with
  | object given =>
      obtain rfl := Except.ok.inj hMembers
      exact h
  | _ => cases hMembers

theorem member_writable {json : Json CodeText} (h : json.Writable) {name : String}
    {value : Json CodeText} (hMember : member json name = .ok value) : value.Writable := by
  cases json with
  | object entries =>
      simp only [member] at hMember
      split at hMember
      · rename_i found hFound
        obtain rfl := Except.ok.inj hMember
        exact writable_of_named h.2 hFound
      · cases hMember
  | _ => cases hMember

theorem memberOr_writable {json : Json CodeText} (h : json.Writable) {name : String}
    {absent value : Json CodeText} (hAbsent : absent.Writable)
    (hMember : memberOr json name absent = .ok value) : value.Writable := by
  obtain ⟨entries, hEntries, rfl⟩ := map_eq_ok_iff.mp hMember
  exact getD_named_writable (members_writable h hEntries).2 name hAbsent

/-- The items of what can be written can be written: keys and code points are texts. -/
theorem items_writable {json : Json CodeText} (h : json.Writable) {found : List (Json CodeText)}
    (hItems : items json = .ok found) : ∀ item ∈ found, item.Writable := by
  cases json with
  | list values =>
      obtain rfl := Except.ok.inj hItems
      exact writableItems_iff.mp h
  | object entries =>
      obtain rfl := Except.ok.inj hItems
      rw [List.forall_mem_map]
      exact fun entry hEntry => (writableMembers_iff.mp h.2 entry hEntry).1
  | text s =>
      obtain rfl := Except.ok.inj hItems
      rw [List.forall_mem_map]
      exact fun point _ => CodeText.isJoined_singleton point
  | _ => cases hItems

/-- A text that a check lets pass has no surrogates that make a pair. -/
theorem isJoined_of_text {json : Json CodeText} (h : json.Writable) {s : CodeText}
    (hText : Lenient.text json = .valid s) : s.IsJoined := by
  cases json with
  | text given =>
      obtain rfl := Checked.valid.inj hText
      exact h
  | _ => cases hText

theorem isJoined_of_optionalText {json : Json CodeText} (h : json.Writable)
    {given : Option CodeText} (hText : Lenient.optionalText json = .valid given) :
    ∀ s ∈ given, s.IsJoined := by
  cases json with
  | text found =>
      obtain rfl := Checked.valid.inj hText
      rintro s ⟨⟩
      exact h
  | null =>
      obtain rfl := Checked.valid.inj hText
      rintro s ⟨⟩
  | _ => cases hText

end Artifact

namespace Value

/-- A property that values get where they are read, if their texts have a property `p`:
leaves have it, integers if they are short, and so have lists and objects with distinct
keys, whatever is in them. -/
structure IsDecoded {τ : Type} (p : τ → Prop) (P : Value τ → Prop) : Prop where
  null : P .null
  boolean : ∀ b, P (.boolean b)
  text : ∀ s, p s → P (.text s)
  integer : ∀ n, IsShort n → P (.integer n)
  float : ∀ x, P (.float x)
  list : ∀ items, P (.list items)
  object : ∀ fields : List (τ × Value τ), (fields.map Prod.fst).Nodup →
    (∀ key ∈ fields.map Prod.fst, p key) → P (.object fields)

theorem decodeEntries_keys {entries : List (CodeText × Json CodeText)}
    {fields : List (CodeText × Value CodeText)} (h : decodeEntries entries = .ok fields) :
    fields.map Prod.fst = entries.map Prod.fst := by
  induction entries generalizing fields with
  | nil =>
      obtain rfl := Except.ok.inj h
      rfl
  | cons entry rest ih =>
      obtain ⟨value, -, hRest⟩ := bind_eq_ok_iff.mp h
      obtain ⟨others, hOthers, hResult⟩ := bind_eq_ok_iff.mp hRest
      obtain rfl := Except.ok.inj hResult
      rw [List.map_cons, List.map_cons, ih hOthers]

/-- Whatever else is read, the fields of an object are those of a dictionary. -/
theorem object_of_decodeEntries (h : IsDecoded IsJoined P)
    {entries : List (CodeText × Json CodeText)} (hEntries : (Json.object entries).Writable)
    {fields : List (CodeText × Value CodeText)} (hFields : decodeEntries entries = .ok fields) :
    P (.object fields) := by
  have hKeys := decodeEntries_keys hFields
  refine h.object fields (hKeys ▸ hEntries.1) (hKeys ▸ ?_)
  rw [List.forall_mem_map]
  exact fun entry hEntry => (writableMembers_iff.mp hEntries.2 entry hEntry).1

mutual
theorem decode_every (h : IsDecoded IsJoined P) {json : Json CodeText} (hJson : json.Writable)
    {v : Value CodeText} (hValue : decode json = .ok v) : v.Every P := by
  cases json with
  | object entries =>
      simp only [decode] at hValue
      split at hValue
      · cases hValue
      split at hValue
      · obtain rfl := Except.ok.inj hValue
        exact h.null
      · obtain ⟨b, -, rfl⟩ := map_eq_ok_iff.mp hValue
        exact h.boolean b
      · obtain ⟨s, hScalar, rfl⟩ := map_eq_ok_iff.mp hValue
        obtain ⟨given, hGiven, hCheck⟩ := Artifact.scalar_eq_ok_iff.mp hScalar
        exact h.text s (Artifact.isJoined_of_text (Artifact.member_writable hJson hGiven) hCheck)
      · obtain ⟨n, hScalar, rfl⟩ := map_eq_ok_iff.mp hValue
        obtain ⟨given, hGiven, hCheck⟩ := Artifact.scalar_eq_ok_iff.mp hScalar
        have hWritable := Artifact.member_writable hJson hGiven
        refine h.integer n (Lenient.integer_isShort ?_ hCheck)
        rintro k rfl
        exact hWritable
      · obtain ⟨x, -, rfl⟩ := map_eq_ok_iff.mp hValue
        exact h.float x
      · obtain ⟨values, hValues, rfl⟩ := map_eq_ok_iff.mp hValue
        exact ⟨h.list values, decodeItemsOf_every h hJson.2 hValues⟩
      · obtain ⟨fields, hFields, rfl⟩ := map_eq_ok_iff.mp hValue
        exact decodeFieldsOf_every h hJson.2 hFields
      · cases hValue
  | _ => cases hValue

theorem decodeItemsOf_every (h : IsDecoded IsJoined P)
    {entries : List (CodeText × Json CodeText)} (hEntries : WritableMembers entries)
    {values : List (Value CodeText)}
    (hValues : decodeItemsOf entries = .ok values) : EveryItem P values := by
  cases entries with
  | nil => cases hValues
  | cons entry rest =>
      obtain ⟨name, json⟩ := entry
      unfold decodeItemsOf at hValues
      split at hValues
      · cases json with
        | list given => exact decodeItems_every h hEntries.2.1 hValues
        | object members =>
            cases members with
            | nil =>
                obtain rfl := Except.ok.inj hValues
                trivial
            | cons member others => cases hValues
        | text s =>
            simp only at hValues
            split at hValues
            · obtain rfl := Except.ok.inj hValues
              trivial
            · cases hValues
        | _ => cases hValues
      · exact decodeItemsOf_every h hEntries.2.2 hValues

theorem decodeItems_every (h : IsDecoded IsJoined P) {given : List (Json CodeText)}
    (hGiven : WritableItems given) {values : List (Value CodeText)}
    (hValues : decodeItems given = .ok values) : EveryItem P values := by
  cases given with
  | nil =>
      obtain rfl := Except.ok.inj hValues
      trivial
  | cons json rest =>
      obtain ⟨value, hValue, hRest⟩ := bind_eq_ok_iff.mp hValues
      obtain ⟨others, hOthers, hResult⟩ := bind_eq_ok_iff.mp hRest
      obtain rfl := Except.ok.inj hResult
      exact ⟨decode_every h hGiven.1 hValue, decodeItems_every h hGiven.2 hOthers⟩

theorem decodeFieldsOf_every (h : IsDecoded IsJoined P)
    {entries : List (CodeText × Json CodeText)} (hEntries : WritableMembers entries)
    {fields : List (CodeText × Value CodeText)}
    (hFields : decodeFieldsOf entries = .ok fields) : (Value.object fields).Every P := by
  cases entries with
  | nil => cases hFields
  | cons entry rest =>
      obtain ⟨name, json⟩ := entry
      unfold decodeFieldsOf at hFields
      split at hFields
      · cases json with
        | object given =>
            exact ⟨object_of_decodeEntries h hEntries.2.1 hFields,
              decodeEntries_every h hEntries.2.1.2 hFields⟩
        | _ => cases hFields
      · exact decodeFieldsOf_every h hEntries.2.2 hFields

theorem decodeEntries_every (h : IsDecoded IsJoined P)
    {entries : List (CodeText × Json CodeText)} (hEntries : WritableMembers entries)
    {fields : List (CodeText × Value CodeText)}
    (hFields : decodeEntries entries = .ok fields) : EveryField P fields := by
  cases entries with
  | nil =>
      obtain rfl := Except.ok.inj hFields
      trivial
  | cons entry rest =>
      obtain ⟨value, hValue, hRest⟩ := bind_eq_ok_iff.mp hFields
      obtain ⟨others, hOthers, hResult⟩ := bind_eq_ok_iff.mp hRest
      obtain rfl := Except.ok.inj hResult
      exact ⟨decode_every h hEntries.2.1 hValue, decodeEntries_every h hEntries.2.2 hOthers⟩
end

end Value

namespace Artifact

theorem null_writable : (Json.null (τ := CodeText)).Writable := trivial

theorem list_nil_writable : (Json.list (τ := CodeText) []).Writable := trivial

theorem object_nil_writable : (Json.object (τ := CodeText) []).Writable :=
  ⟨List.nodup_nil, trivial⟩

/-- What is decoded from items that can be written. -/
def IsDecodedFrom {α : Type} (decode : Json CodeText → Except ReadError α) (results : List α) :
    Prop :=
  ∃ found : List (Json CodeText), (∀ item ∈ found, item.Writable) ∧ found.mapM decode = .ok results

/-- What holds of each item that is decoded holds of all of them. -/
theorem IsDecodedFrom.forall {α : Type} {decode : Json CodeText → Except ReadError α}
    {results : List α} (h : IsDecodedFrom decode results) {Q : α → Prop}
    (hDecode : ∀ {json : Json CodeText}, json.Writable → ∀ {a}, decode json = .ok a → Q a) :
    ∀ a ∈ results, Q a := by
  obtain ⟨found, hWritable, hResults⟩ := h
  exact forall_of_mapM hResults fun item hItem _ hDecoded => hDecode (hWritable item hItem) hDecoded

/-- The items of a member that may be absent. -/
theorem isDecodedFrom_of_memberOr {α : Type} {decode : Json CodeText → Except ReadError α}
    {json given : Json CodeText} (hJson : json.Writable) {name : String}
    (hGiven : memberOr json name (.list []) = .ok given) {found : List (Json CodeText)}
    (hFound : items given = .ok found) {results : List α}
    (hResults : found.mapM decode = .ok results) : IsDecodedFrom decode results :=
  ⟨found, items_writable (memberOr_writable hJson list_nil_writable hGiven) hFound, hResults⟩

end Artifact

open Artifact (IsDecodedFrom isDecodedFrom_of_memberOr member_writable memberOr_writable
  members_writable isJoined_of_text isJoined_of_optionalText)

section

variable {json : Json CodeText} (hJson : json.Writable)
include hJson

theorem FieldType.decode_joined {t : FieldType CodeText} (hType : decode json = .ok t) :
    t.EveryText IsJoined := by
  obtain ⟨kind, hKind, hType⟩ := bind_eq_ok_iff.mp hType
  split at hType
  · obtain ⟨name, hName, hType⟩ := bind_eq_ok_iff.mp hType
    split at hType
    · cases hType
      trivial
    · cases hType
  · simp only [bind_eq_ok_iff, Artifact.checked_eq_ok_iff, checkReference,
      Checked.also_eq_valid_iff, Checked.map_eq_valid_iff, Checked.under_eq_valid_iff] at hType
    obtain ⟨model, hModel, source, hSource, -, given, ⟨name, hName, rfl⟩, hGiven, rfl⟩ := hType
    exact ⟨isJoined_of_text (member_writable hJson hModel) hName, isJoined_of_optionalText
      (memberOr_writable hJson Artifact.null_writable hSource) hGiven⟩
  · cases hType

/-- The parts of a directive that is decoded. -/
theorem Directive.parts_of_decode {d : Directive CodeText} (h : decode json = .ok d) :
    d.name.IsJoined ∧ (∀ s ∈ d.provider, s.IsJoined) ∧
      ∃ entries, (Json.object entries).Writable ∧ Value.decodeEntries entries = .ok d.args := by
  simp only [decode, bind_eq_ok_iff, Artifact.checked_eq_ok_iff, ofChecked_eq_valid_iff,
    Checked.under_eq_valid_iff] at h
  obtain ⟨name, hName, provider, hProvider, given, hGiven, entries, hEntries, args, hArgs,
    hNameText, hProviderText, hSame⟩ := h
  obtain rfl := Checked.valid.inj hSame
  refine ⟨isJoined_of_text (member_writable hJson hName) hNameText, ?_, entries, ?_, hArgs⟩
  · exact isJoined_of_optionalText (memberOr_writable hJson Artifact.null_writable hProvider)
      hProviderText
  · exact members_writable (memberOr_writable hJson Artifact.object_nil_writable hGiven) hEntries

/-- The parts of a field that is decoded. -/
theorem Field.parts_of_decode {f : Field CodeText} (h : decode json = .ok f) :
    f.name.IsJoined ∧ f.type.EveryText IsJoined ∧ IsDecodedFrom Directive.decode f.directives := by
  simp only [decode, bind_eq_ok_iff, Artifact.checked_eq_ok_iff, ofChecked_eq_valid_iff,
    Checked.under_eq_valid_iff] at h
  obtain ⟨name, hName, typeGiven, hTypeGiven, type, hType, -, -, -, -, given, hGiven, found, hFound,
    directives, hDirectives, hNameText, hSameType, -, -, hSame⟩ := h
  obtain rfl := Checked.valid.inj hSameType
  obtain rfl := Checked.valid.inj hSame
  exact ⟨isJoined_of_text (member_writable hJson hName) hNameText,
    FieldType.decode_joined (member_writable hJson hTypeGiven) hType,
    isDecodedFrom_of_memberOr hJson hGiven hFound hDirectives⟩

/-- The parts of a model that is decoded. -/
theorem Model.parts_of_decode {m : Model CodeText} (h : decode json = .ok m) :
    m.name.IsJoined ∧ m.source.IsJoined ∧ IsDecodedFrom Field.decode m.fields ∧
      IsDecodedFrom Directive.decode m.directives := by
  simp only [decode, bind_eq_ok_iff, Artifact.checked_eq_ok_iff, ofChecked_eq_valid_iff,
    Checked.under_eq_valid_iff] at h
  obtain ⟨name, hName, source, hSource, fieldsGiven, hFieldsGiven, fieldsFound, hFieldsFound,
    fields, hFields, given, hGiven, found, hFound, directives, hDirectives, hNameText, hSourceText,
    hSameFields, hSame⟩ := h
  obtain rfl := Checked.valid.inj hSameFields
  obtain rfl := Checked.valid.inj hSame
  exact ⟨isJoined_of_text (member_writable hJson hName) hNameText,
    isJoined_of_text (member_writable hJson hSource) hSourceText,
    isDecodedFrom_of_memberOr hJson hFieldsGiven hFieldsFound hFields,
    isDecodedFrom_of_memberOr hJson hGiven hFound hDirectives⟩

end

section

variable {json : Json CodeText}

theorem Directive.decode_every (h : Value.IsDecoded IsJoined P) (hJson : json.Writable)
    {d : Directive CodeText} (hDirective : decode json = .ok d) : d.Every P := by
  obtain ⟨-, -, entries, hEntries, hArgs⟩ := parts_of_decode hJson hDirective
  exact ⟨Value.object_of_decodeEntries h hEntries hArgs,
    Value.decodeEntries_every h hEntries.2 hArgs⟩

theorem Field.decode_every (h : Value.IsDecoded IsJoined P) (hJson : json.Writable)
    {f : Field CodeText} (hField : decode json = .ok f) : f.Every P := by
  obtain ⟨-, -, hDirectives⟩ := parts_of_decode hJson hField
  exact hDirectives.forall (Directive.decode_every h)

theorem Model.decode_every (h : Value.IsDecoded IsJoined P) (hJson : json.Writable)
    {m : Model CodeText} (hModel : decode json = .ok m) : m.Every P := by
  obtain ⟨-, -, hFields, hDirectives⟩ := parts_of_decode hJson hModel
  exact ⟨hFields.forall (Field.decode_every h), hDirectives.forall (Directive.decode_every h)⟩

end

section

variable {τ : Type} {p : τ → Prop}

theorem Artifact.isDecoded_hasDistinctKeys : Value.IsDecoded p HasDistinctKeys where
  null := trivial
  boolean _ := trivial
  text _ _ := trivial
  integer _ _ := trivial
  float _ := trivial
  list _ := trivial
  object _ hKeys _ := hKeys

theorem Artifact.isDecoded_hasFewDigits : Value.IsDecoded p HasFewDigits where
  null := trivial
  boolean _ := trivial
  text _ _ := trivial
  integer _ hShort := hShort
  float _ := trivial
  list _ := trivial
  object _ _ _ := trivial

theorem Artifact.isDecoded_hasTexts : Value.IsDecoded p (HasTexts p) where
  null := trivial
  boolean _ := trivial
  text _ hText := hText
  integer _ _ := trivial
  float _ := trivial
  list _ := trivial
  object _ _ hKeys := hKeys

end

section

variable {json : Json CodeText} (hJson : json.Writable)
include hJson

theorem Directive.decode_joined {d : Directive CodeText} (hDirective : decode json = .ok d) :
    d.EveryText IsJoined := by
  obtain ⟨hName, hProvider, -⟩ := parts_of_decode hJson hDirective
  exact ⟨hName, hProvider, decode_every Artifact.isDecoded_hasTexts hJson hDirective⟩

theorem Field.decode_joined {f : Field CodeText} (hField : decode json = .ok f) :
    f.EveryText IsJoined := by
  obtain ⟨hName, hType, hDirectives⟩ := parts_of_decode hJson hField
  exact ⟨hName, hType, hDirectives.forall Directive.decode_joined⟩

theorem Model.decode_joined {m : Model CodeText} (hModel : decode json = .ok m) :
    m.EveryText IsJoined := by
  obtain ⟨hName, hSource, hFields, hDirectives⟩ := parts_of_decode hJson hModel
  exact ⟨hName, hSource, hFields.forall Field.decode_joined,
    hDirectives.forall Directive.decode_joined⟩

end

namespace Artifact

section

variable {text : String} {models : List (Model CodeText)} (hModels : read text = .ok models)
include hModels

end

end Artifact
end SchemaModels
