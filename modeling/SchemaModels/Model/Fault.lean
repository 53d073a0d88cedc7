import SchemaModels.Text.CodePoint

/-!
What checking finds wrong with given data. All faults of a record are reported,
in the order of its fields, each with the way to the place.
-/
namespace SchemaModels

inductive FaultKind where
  | missing
  | textType
  | textEncoding
  | booleanParsing
  | booleanType
  | integerParsing
  | integerSize
  | integerFromFloat
  | integerType
  | finiteNumber
  | floatParsing
  | floatType
  | listType
  | objectType
  | notInEnumeration
  | recordType
  | taggedRecordType
  | tagMissing
  | tagUnknown
  | unknownKey
  | keyNotText
  | unknownEncoding (name : String)
  | nullInEncoding
  | frozen
  deriving DecidableEq, Repr

namespace FaultKind

/-- The code of a fault. -/
def code : FaultKind → String
  | .missing => "missing"
  | .textType => "string_type"
  | .textEncoding => "string_unicode"
  | .booleanParsing => "bool_parsing"
  | .booleanType => "bool_type"
  | .integerParsing => "int_parsing"
  | .integerSize => "int_parsing_size"
  | .integerFromFloat => "int_from_float"
  | .integerType => "int_type"
  | .finiteNumber => "finite_number"
  | .floatParsing => "float_parsing"
  | .floatType => "float_type"
  | .listType => "list_type"
  | .objectType => "dict_type"
  | .notInEnumeration => "enum"
  | .recordType => "model_type"
  | .taggedRecordType => "model_attributes_type"
  | .tagMissing => "union_tag_not_found"
  | .tagUnknown => "union_tag_invalid"
  | .unknownKey => "extra_forbidden"
  | .keyNotText => "invalid_key"
  | .unknownEncoding _ | .nullInEncoding => "value_error"
  | .frozen => "frozen_instance"

/-- The words that go with the code, where the code alone does not say enough. -/
def message? : FaultKind → Option String
  | .unknownEncoding name => some s!"Value error, unknown encoding '{name}'"
  | .nullInEncoding => some "Value error, embedded null character"
  | _ => none

end FaultKind

/-- A fault and the way to it: field names, keys, positions and tags. -/
structure Fault where
  loc : List CodeText
  kind : FaultKind
  deriving DecidableEq, Repr

/-- A checked value, or all faults that were found. -/
inductive Checked (α : Type) where
  | valid (a : α)
  | faulty (faults : List Fault)

namespace Checked

variable {α β : Type}

def fail (kind : FaultKind) : Checked α := .faulty [⟨[], kind⟩]

def map (f : α → β) : Checked α → Checked β
  | .valid a => .valid (f a)
  | .faulty faults => .faulty faults

/-- The same outcome, seen from one step further out. -/
def under (step : CodeText) : Checked α → Checked α
  | .valid a => .valid a
  | .faulty faults => .faulty (faults.map fun f => { f with loc := step :: f.loc })

/-- Applies a checked function to a checked value and keeps the faults of both. -/
def also (f : Checked (α → β)) (a : Checked α) : Checked β :=
  match f, a with
  | .valid f, .valid a => .valid (f a)
  | .valid _, .faulty faults => .faulty faults
  | .faulty faults, .valid _ => .faulty faults
  | .faulty faults, .faulty more => .faulty (faults ++ more)

/-- Keeps the values of a list if all are right, and all faults otherwise. -/
def all : List (Checked α) → Checked (List α)
  | [] => .valid []
  | a :: rest => (a.map List.cons).also (all rest)

/-- The outcome as a computation that stops at faults. -/
def toExcept {ε : Type} (wrap : List Fault → ε) : Checked α → Except ε α
  | .valid a => .ok a
  | .faulty faults => .error (wrap faults)

end Checked
end SchemaModels
