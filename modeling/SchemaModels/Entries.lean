/-!
Entries with keys, in the order in which the keys first appear. The value of a
key is the one given last, and it stands where the key stood first.
-/
namespace SchemaModels

/-- Keys with their values, in order. The operations keep the keys distinct. -/
abbrev Entries (κ α : Type) := List (κ × α)

namespace Entries

variable {κ α β : Type} [BEq κ]

/-- The entries with `value` at `key`: in the place of the key if it is there,
at the end otherwise. -/
def put : Entries κ α → κ → α → Entries κ α
  | [], key, value => [(key, value)]
  | entry :: rest, key, value =>
    if entry.1 == key then (entry.1, value) :: rest else entry :: put rest key value

/-- The entries of a list of pairs, read from left to right. -/
def ofPairs (pairs : List (κ × α)) : Entries κ α :=
  pairs.foldl (fun entries pair => put entries pair.1 pair.2) []

/-- The value at a key. -/
def get? (entries : Entries κ α) (key : κ) : Option α :=
  (entries.find? (fun entry => entry.1 == key)).map (·.2)

/-- The same entries with each value changed. -/
def mapValues (f : α → β) (entries : Entries κ α) : Entries κ β :=
  entries.map fun entry => (entry.1, f entry.2)

end Entries
end SchemaModels
