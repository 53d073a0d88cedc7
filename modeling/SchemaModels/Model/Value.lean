import SchemaModels.Json.Basic

/-!
Literal values: what the arguments of a directive hold.
-/
namespace SchemaModels

/-- A value whose texts and keys are of some type. -/
inductive Value (τ : Type := String) where
  | null
  | boolean (b : Bool)
  | text (s : τ)
  | integer (n : Int)
  | float (x : Binary64)
  | list (items : List (Value τ))
  | object (fields : List (τ × Value τ))
  deriving Inhabited

namespace Value

variable {τ σ : Type}

mutual
/-- The plain value, without the names of the kinds. -/
def plain : Value τ → Json τ
  | .null => .null
  | .boolean b => .boolean b
  | .text s => .text s
  | .integer n => .integer n
  | .float x => .float x
  | .list items => .list (plainItems items)
  | .object fields => .object (plainFields fields)

def plainItems : List (Value τ) → List (Json τ)
  | [] => []
  | item :: rest => item.plain :: plainItems rest

def plainFields : List (τ × Value τ) → List (τ × Json τ)
  | [] => []
  | (key, value) :: rest => (key, value.plain) :: plainFields rest
end

mutual
/-- The value with each text changed. -/
def mapTexts (f : τ → σ) : Value τ → Value σ
  | .null => .null
  | .boolean b => .boolean b
  | .text s => .text (f s)
  | .integer n => .integer n
  | .float x => .float x
  | .list items => .list (mapItems f items)
  | .object fields => .object (mapFields f fields)

def mapItems (f : τ → σ) : List (Value τ) → List (Value σ)
  | [] => []
  | item :: rest => item.mapTexts f :: mapItems f rest

def mapFields (f : τ → σ) : List (τ × Value τ) → List (σ × Value σ)
  | [] => []
  | (key, value) :: rest => (f key, value.mapTexts f) :: mapFields f rest
end

variable [DecidableEq τ]

mutual
/-- Equality of values. Doubles are compared as numbers and the fields of
objects without regard to their order; values of different kinds differ. -/
def equal : Value τ → Value τ → Bool
  | .null, .null => true
  | .boolean a, .boolean b => a == b
  | .text a, .text b => a == b
  | .integer a, .integer b => a == b
  | .float a, .float b => a.equal b
  | .list a, .list b => equalItems a b
  | .object a, .object b => a.length == b.length && fieldsWithin a b
  | _, _ => false

def equalItems : List (Value τ) → List (Value τ) → Bool
  | [], [] => true
  | a :: as, b :: bs => a.equal b && equalItems as bs
  | _, _ => false

/-- Whether each field has an equal one under its key among others. -/
def fieldsWithin : List (τ × Value τ) → List (τ × Value τ) → Bool
  | [], _ => true
  | (key, value) :: rest, others =>
    (match others.lookup key with
      | some other => value.equal other
      | none => false) && fieldsWithin rest others
end

end Value
end SchemaModels
