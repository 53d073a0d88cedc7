import SchemaModels.Model.Entity
import SchemaModels.Number.Numeral
import SchemaModels.Proofs.Entries

/-!
Properties of all values and of all texts in a model, and models that equal themselves:
those in which keys are distinct and every double is a number.
-/
namespace SchemaModels

variable {τ σ : Type}

namespace Value

mutual
/-- A property of a value and of all values in it. -/
def Every (p : Value τ → Prop) : Value τ → Prop
  | .null => p .null
  | .boolean b => p (.boolean b)
  | .text s => p (.text s)
  | .integer n => p (.integer n)
  | .float x => p (.float x)
  | .list items => p (.list items) ∧ EveryItem p items
  | .object fields => p (.object fields) ∧ EveryField p fields

def EveryItem (p : Value τ → Prop) : List (Value τ) → Prop
  | [] => True
  | item :: rest => item.Every p ∧ EveryItem p rest

def EveryField (p : Value τ → Prop) : List (τ × Value τ) → Prop
  | [] => True
  | (_, value) :: rest => value.Every p ∧ EveryField p rest
end

theorem everyField_iff {p : Value τ → Prop} {fields : List (τ × Value τ)} :
    EveryField p fields ↔ ∀ field ∈ fields, field.2.Every p := by
  induction fields with
  | nil => simp [EveryField]
  | cons field rest ih => simp [EveryField, ih]

/-- The fields of an object have distinct keys: it is a dictionary. -/
def HasDistinctKeys : Value τ → Prop
  | .object fields => (fields.map Prod.fst).Nodup
  | _ => True

/-- An integer has no more decimal digits than can be read. -/
def HasFewDigits : Value τ → Prop
  | .integer n => (Nat.toDigits 10 n.natAbs).length ≤ maxIntegerDigits
  | _ => True

/-- A double is a number, or infinite. -/
def IsNumber : Value τ → Prop
  | .float .notANumber => False
  | _ => True

/-- The text that a value is, or the keys that it has, are of some sort. -/
def HasTexts (p : τ → Prop) : Value τ → Prop
  | .text s => p s
  | .object fields => ∀ key ∈ fields.map Prod.fst, p key
  | _ => True

end Value

/-- A property of all values among the arguments, which are the fields of an
object. -/
def Directive.Every (p : Value τ → Prop) (d : Directive τ) : Prop := (Value.object d.args).Every p

def Field.Every (p : Value τ → Prop) (f : Field τ) : Prop := ∀ d ∈ f.directives, d.Every p

def Model.Every (p : Value τ → Prop) (m : Model τ) : Prop :=
  (∀ f ∈ m.fields, f.Every p) ∧ ∀ d ∈ m.directives, d.Every p

section

variable (p : τ → Prop)

/-- A property of all texts of a type. -/
def FieldType.EveryText : FieldType τ → Prop
  | .primitive _ => True
  | .reference model source => p model ∧ ∀ s ∈ source, p s

def Directive.EveryText (d : Directive τ) : Prop :=
  p d.name ∧ (∀ s ∈ d.provider, p s) ∧ d.Every (Value.HasTexts p)

def Field.EveryText (f : Field τ) : Prop :=
  p f.name ∧ f.type.EveryText p ∧ ∀ d ∈ f.directives, d.EveryText p

def Model.EveryText (m : Model τ) : Prop :=
  p m.name ∧ p m.source ∧ (∀ f ∈ m.fields, f.EveryText p) ∧ ∀ d ∈ m.directives, d.EveryText p

end

theorem Binary64.equal_self {x : Binary64} (h : (Value.float (τ := τ) x).IsNumber) :
    x.equal x = true := by
  cases x with
  | notANumber => exact h.elim
  | infinite negative => simp [equal]
  | finite negative mantissa exponent hCanonical => simp [equal]

namespace Value

variable [DecidableEq τ]

mutual
/-- A value with distinct keys and without NaN equals itself. -/
theorem equal_self {v : Value τ} (hKeys : v.Every HasDistinctKeys) (hNumbers : v.Every IsNumber) :
    v.equal v = true := by
  cases v with
  | null => rfl
  | boolean b => simp [equal]
  | text s => simp [equal]
  | integer n => simp [equal]
  | float x =>
      rw [Every] at hNumbers
      rw [equal]
      exact Binary64.equal_self hNumbers
  | list items =>
      rw [Every] at hKeys hNumbers
      rw [equal]
      exact equalItems_self hKeys.2 hNumbers.2
  | object fields =>
      rw [Every] at hKeys hNumbers
      rw [equal, beq_self_eq_true, Bool.true_and]
      exact fieldsWithin_of_subset hKeys.2 hNumbers.2 hKeys.1 (List.Subset.refl fields)

theorem equalItems_self {items : List (Value τ)} (hKeys : EveryItem HasDistinctKeys items)
    (hNumbers : EveryItem IsNumber items) : equalItems items items = true := by
  cases items with
  | nil => rfl
  | cons item rest =>
      rw [EveryItem] at hKeys hNumbers
      rw [equalItems, equal_self hKeys.1 hNumbers.1, equalItems_self hKeys.2 hNumbers.2]
      rfl

/-- Fields that are among others are found there under their keys. -/
theorem fieldsWithin_of_subset {fields others : List (τ × Value τ)}
    (hKeys : EveryField HasDistinctKeys fields) (hNumbers : EveryField IsNumber fields)
    (hDistinct : (others.map Prod.fst).Nodup) (hSubset : fields ⊆ others) :
    fieldsWithin fields others = true := by
  cases fields with
  | nil => rfl
  | cons field rest =>
      rw [EveryField] at hKeys hNumbers
      have hFound := Entries.lookup_of_nodup hDistinct (hSubset (List.mem_cons_self ..))
      have hRest := fieldsWithin_of_subset hKeys.2 hNumbers.2 hDistinct
        (List.subset_of_cons_subset hSubset)
      simp only [fieldsWithin, hFound, equal_self hKeys.1 hNumbers.1, hRest, Bool.and_self]
end

end Value

theorem equalLists_self {α : Type} {same : α → α → Bool} {items : List α}
    (h : ∀ item ∈ items, same item item = true) : equalLists same items items = true := by
  induction items with
  | nil => rfl
  | cons item rest ih =>
      rw [List.forall_mem_cons] at h
      rw [equalLists, h.1, ih h.2]
      rfl

section

open Value (HasDistinctKeys IsNumber)

variable [DecidableEq τ]

theorem Directive.equal_self {d : Directive τ} (hKeys : d.Every HasDistinctKeys)
    (hNumbers : d.Every IsNumber) : d.equal d = true := by
  simp only [equal, beq_self_eq_true, Value.equal_self hKeys hNumbers, Bool.and_self]

theorem Field.equal_self {f : Field τ} (hKeys : f.Every HasDistinctKeys)
    (hNumbers : f.Every IsNumber) : f.equal f = true := by
  have hDirectives : equalLists Directive.equal f.directives f.directives = true := by
    apply equalLists_self
    intro d hd
    exact Directive.equal_self (hKeys d hd) (hNumbers d hd)
  simp only [equal, beq_self_eq_true, decide_true, hDirectives, Bool.and_self]

/-- A model with distinct keys and without NaN equals itself. -/
theorem Model.equal_self {m : Model τ} (hKeys : m.Every HasDistinctKeys)
    (hNumbers : m.Every IsNumber) : m.equal m = true := by
  have hFields : equalLists Field.equal m.fields m.fields = true := by
    apply equalLists_self
    intro f hf
    exact Field.equal_self (hKeys.1 f hf) (hNumbers.1 f hf)
  have hDirectives : equalLists Directive.equal m.directives m.directives = true := by
    apply equalLists_self
    intro d hd
    exact Directive.equal_self (hKeys.2 d hd) (hNumbers.2 d hd)
  simp only [equal, beq_self_eq_true, hFields, hDirectives, Bool.and_self]

end

end SchemaModels
