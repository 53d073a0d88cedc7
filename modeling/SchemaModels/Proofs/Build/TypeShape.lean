import SchemaModels.Proofs.Build.Faults

/-!
Which types a field may have, and what a shape keeps of them. A name may stand alone
or in one list, each of them marked as non-null or not. All that a shape forgets is
the mark inside the list.
-/
namespace SchemaModels

/-- The table of scalars is read backwards. -/
theorem Primitive.ofScalar?_eq_some_iff {name : String} {p : Primitive} :
    ofScalar? name = some p ↔ p.scalar = name := by
  constructor
  · intro h
    simpa using List.find?_some h
  · rintro rfl
    cases p <;> decide

namespace FieldType

/-- What a name stands for: a scalar, or a model with the default source. -/
theorem eq_ofName_iff {name : String} {default : Option String} {type : FieldType} :
    type = ofName name default ↔ (∃ p : Primitive, p.scalar = name ∧ type = .primitive p) ∨
      (∀ p : Primitive, p.scalar ≠ name) ∧ type = .reference name default := by
  simp only [ofName, ne_eq, ← Primitive.ofScalar?_eq_some_iff]
  cases Primitive.ofScalar? name with
  | none => simp
  | some p => simp

/-- Different names stand for different types, whatever the default sources are. -/
theorem ofName_injective {first second : String} {default other : Option String}
    (h : ofName first default = ofName second other) : first = second := by
  rcases eq_ofName_iff.mp h with ⟨p, rfl, hFirst⟩ | ⟨-, hFirst⟩
  · rcases eq_ofName_iff.mp hFirst.symm with ⟨q, rfl, hSecond⟩ | ⟨-, hSecond⟩
    · rw [primitive.inj hSecond]
    · cases hSecond
  · rcases eq_ofName_iff.mp hFirst.symm with ⟨q, rfl, hSecond⟩ | ⟨-, hSecond⟩
    · cases hSecond
    · exact (reference.inj hSecond).1.symm

end FieldType

namespace Build

open Graphql

/-- A name alone or in a list, where each of the two may be marked as non-null. -/
def flatTypes (name : String) : List TypeRef := [
  .named name, .nonNull (.named name),
  .list (.named name), .nonNull (.list (.named name)),
  .list (.nonNull (.named name)), .nonNull (.list (.nonNull (.named name)))]

/-- The type without a mark for non-null directly inside its list. -/
def withoutItemMark : TypeRef → TypeRef
  | .list (.nonNull item) => .list item
  | .nonNull (.list (.nonNull item)) => .nonNull (.list item)
  | type => type

/-- What the shape of a type with one name says: the flags read the wrappers from the
outside, and the name stands for a scalar or for a model with the default source. -/
structure FieldShape.Describes (default : Option String) (type : TypeRef) (name : String)
    (shape : FieldShape) : Prop where
  flat : type ∈ flatTypes name
  nonNull : shape.nonNull = true ↔ ∃ inner, type = .nonNull inner
  collection : shape.collection = true ↔ ∃ item, type = .list item ∨ type = .nonNull (.list item)
  scalar : ∀ p : Primitive, p.scalar = name → shape.type = .primitive p
  model : (∀ p : Primitive, p.scalar ≠ name) → shape.type = .reference name default

theorem bareType_eq_named_iff {type : TypeRef} {name : String} :
    bareType type = .named name ↔ type ∈ flatTypes name := by
  fun_cases bareType type <;> simp_all [flatTypes]

theorem isNonNull_iff {type : TypeRef} :
    isNonNull type = true ↔ ∃ inner, type = .nonNull inner := by
  cases type <;> simp [isNonNull]

theorem stripList_isList_iff {type : TypeRef} :
    (stripList (stripNonNull type)).1 = true ↔
      ∃ item, type = .list item ∨ type = .nonNull (.list item) := by
  cases type with
  | nonNull inner => cases inner <;> simp [stripNonNull, stripList]
  | _ => simp [stripNonNull, stripList]

/-- The shape of a type whose bare type is a name. -/
theorem fieldShape_of_mem {type : TypeRef} {name : String} (default : Option String)
    (h : type ∈ flatTypes name) : fieldShape default type =
      .ok ⟨isNonNull type, (stripList (stripNonNull type)).1, .ofName name default⟩ := by
  have hBare : (stripList (stripNonNull type)).2 = .named name := by
    rw [← bareType_eq, bareType_eq_named_iff.mpr h]
  have hSplit : stripList (stripNonNull type) =
      ((stripList (stripNonNull type)).1, .named name) := Prod.ext rfl hBare
  unfold fieldShape
  rw [hSplit]

/-- A type that is not flat has its bare type as its fault. -/
theorem typeFaults_of_not_mem {type : TypeRef} (h : ∀ name, type ∉ flatTypes name) :
    typeFaults type = [.typeShape (bareType type).kind] := by
  unfold typeFaults
  split
  case h_1 name hBare => exact absurd (bareType_eq_named_iff.mp hBare) (h name)
  case h_2 => rfl

/-- Only flat types have shapes. -/
theorem exists_mem_flatTypes {default : Option String} {type : TypeRef} {shape : FieldShape}
    (h : fieldShape default type = .ok shape) : ∃ name, type ∈ flatTypes name := by
  by_contra hNone
  have hFaults := (fieldShape_failsFirst default type).exists_ok_iff.mp ⟨shape, h⟩
  rw [typeFaults_of_not_mem (not_exists.mp hNone)] at hFaults
  cases hFaults

/-- The type of a name with a list around it, a mark for non-null, or both. -/
def wrapped (nonNull collection : Bool) (name : String) : TypeRef :=
  let inner := if collection then .list (.named name) else .named name
  if nonNull then .nonNull inner else inner

/-- Of a flat type everything but the mark inside its list can be told from the flags
and the name. -/
theorem withoutItemMark_of_mem {type : TypeRef} {name : String} (h : type ∈ flatTypes name) :
    withoutItemMark type = wrapped (isNonNull type) (stripList (stripNonNull type)).1 name := by
  simp only [flatTypes, List.mem_cons, List.not_mem_nil, or_false] at h
  rcases h with rfl | rfl | rfl | rfl | rfl | rfl <;> rfl

theorem wrapped_inj {nonNull collection nonNull' collection' : Bool} {name name' : String} :
    wrapped nonNull collection name = wrapped nonNull' collection' name' ↔
      nonNull = nonNull' ∧ collection = collection' ∧ name = name' := by
  cases nonNull <;> cases nonNull' <;> cases collection <;> cases collection' <;> simp [wrapped]

/-- The shapes of a type are those that describe it. -/
theorem fieldShape_eq_ok_iff {default : Option String} {type : TypeRef} {shape : FieldShape} :
    fieldShape default type = .ok shape ↔ ∃ name, shape.Describes default type name := by
  constructor
  · intro h
    obtain ⟨name, hFlat⟩ := exists_mem_flatTypes h
    rw [fieldShape_of_mem default hFlat] at h
    cases h
    refine ⟨name, hFlat, isNonNull_iff, stripList_isList_iff, fun p hScalar => ?_, fun hNone => ?_⟩
    · exact (FieldType.eq_ofName_iff.mpr (.inl ⟨p, hScalar, rfl⟩)).symm
    · exact (FieldType.eq_ofName_iff.mpr (.inr ⟨hNone, rfl⟩)).symm
  · rintro ⟨name, hShape⟩
    have hNonNull : isNonNull type = shape.nonNull :=
      Bool.eq_iff_iff.mpr (isNonNull_iff.trans hShape.nonNull.symm)
    have hCollection : (stripList (stripNonNull type)).1 = shape.collection :=
      Bool.eq_iff_iff.mpr (stripList_isList_iff.trans hShape.collection.symm)
    have hType : shape.type = .ofName name default := by
      rw [FieldType.eq_ofName_iff]
      by_cases hScalar : ∃ p : Primitive, p.scalar = name
      · exact .inl (hScalar.imp fun p hp => ⟨hp, hShape.scalar p hp⟩)
      · exact .inr ⟨not_exists.mp hScalar, hShape.model (not_exists.mp hScalar)⟩
    rw [fieldShape_of_mem default hShape.flat, hNonNull, hCollection, ← hType]

/-- A type without a shape fails with the kind of its bare type. -/
theorem fieldShape_eq_error_iff {default : Option String} {type : TypeRef} {e : BuildError} :
    fieldShape default type = .error e ↔
      (∀ name, type ∉ flatTypes name) ∧ e = .typeShape (bareType type).kind := by
  constructor
  · intro h
    have hNone (name : String) : type ∉ flatTypes name := by
      intro hFlat
      rw [fieldShape_of_mem default hFlat] at h
      cases h
    refine ⟨hNone, ?_⟩
    have hFirst := (fieldShape_failsFirst default type e).mp h
    rw [typeFaults_of_not_mem hNone] at hFirst
    exact (Option.some.inj hFirst).symm
  · rintro ⟨hNone, rfl⟩
    rw [fieldShape_failsFirst, typeFaults_of_not_mem hNone]
    rfl

/-- Two flat types have the same shape exactly if at most the mark inside the list
tells them apart. -/
theorem fieldShape_eq_iff {first second : TypeRef} {name other : String} (default : Option String)
    (hFirst : first ∈ flatTypes name) (hSecond : second ∈ flatTypes other) :
    fieldShape default first = fieldShape default second ↔
      withoutItemMark first = withoutItemMark second := by
  have hName : FieldType.ofName name default = .ofName other default ↔ name = other :=
    ⟨FieldType.ofName_injective, fun h => h ▸ rfl⟩
  rw [fieldShape_of_mem default hFirst, fieldShape_of_mem default hSecond,
    withoutItemMark_of_mem hFirst, withoutItemMark_of_mem hSecond, wrapped_inj]
  simp [hName]

/-- A field may have six types for each name: the shape says which, but for the mark
inside the list, and different names never get the same type. All other types fail with
the kind of what is left without the wrappers. -/
theorem fieldShape_forgets_item_mark (default : Option String) :
    (∀ type shape, fieldShape default type = .ok shape ↔
      ∃ name, shape.Describes default type name) ∧
    (∀ type, (∃ shape, fieldShape default type = .ok shape) ↔ ∃ name, type ∈ flatTypes name) ∧
    (∀ type e, fieldShape default type = .error e ↔
      (∀ name, type ∉ flatTypes name) ∧ e = .typeShape (bareType type).kind) ∧
    (∀ name, ∀ first ∈ flatTypes name, ∀ other, ∀ second ∈ flatTypes other,
      (fieldShape default first = fieldShape default second ↔
        withoutItemMark first = withoutItemMark second)) ∧
    ∀ name, ∀ first ∈ flatTypes name, ∀ other, ∀ second ∈ flatTypes other,
      name ≠ other → ∀ shape shape', fieldShape default first = .ok shape →
        fieldShape default second = .ok shape' → shape.type ≠ shape'.type := by
  refine ⟨fun type shape => fieldShape_eq_ok_iff, fun type => ⟨?_, ?_⟩,
    fun type e => fieldShape_eq_error_iff, ?_, ?_⟩
  · rintro ⟨shape, h⟩
    exact exists_mem_flatTypes h
  · rintro ⟨name, hFlat⟩
    exact ⟨_, fieldShape_of_mem default hFlat⟩
  · intro name first hFirst other second hSecond
    exact fieldShape_eq_iff default hFirst hSecond
  · intro name first hFirst other second hSecond hNe shape shape' hShape hShape' hType
    rw [fieldShape_of_mem default hFirst] at hShape
    rw [fieldShape_of_mem default hSecond] at hShape'
    cases hShape
    cases hShape'
    exact hNe (FieldType.ofName_injective hType)

example : fieldShape none (.nonNull (.nonNull (.named "T"))) =
    .error (.typeShape .nonNullType) := rfl

end Build
end SchemaModels
