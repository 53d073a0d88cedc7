import Mathlib.Data.List.Chain
import SchemaModels.Text.CodePoint

/-!
Texts in which surrogates stand alone: none that begins a pair is followed by one that ends
a pair, which would be a character. Strings are such texts, having no surrogates.
-/
namespace SchemaModels

namespace CodePoint

/-- A surrogate that begins a pair. -/
def IsHigh : CodePoint → Prop
  | .char _ => False
  | .surrogate s => s.code < 0xdc00

/-- A surrogate that ends a pair. -/
def IsLow : CodePoint → Prop
  | .char _ => False
  | .surrogate s => 0xdc00 ≤ s.code

theorem isHigh_ofUnit_iff {unit : Nat} :
    (ofUnit unit).IsHigh ↔ 0xd800 ≤ unit ∧ unit < 0xdc00 := by
  unfold ofUnit
  split
  · rename_i hRange
    exact ⟨fun hHigh => ⟨hRange.1, hHigh⟩, And.right⟩
  · rename_i hRange
    exact ⟨False.elim, fun hHigh => hRange ⟨hHigh.1, by omega⟩⟩

theorem isLow_ofUnit_iff {unit : Nat} : (ofUnit unit).IsLow ↔ 0xdc00 ≤ unit ∧ unit < 0xe000 := by
  unfold ofUnit
  split
  · rename_i hRange
    exact ⟨fun hLow => ⟨hLow, hRange.2⟩, And.left⟩
  · rename_i hRange
    exact ⟨False.elim, fun hLow => hRange ⟨by omega, hLow.2⟩⟩

end CodePoint

namespace CodeText

/-- No two surrogates that follow each other make a pair. -/
def IsJoined (text : CodeText) : Prop := text.IsChain fun p q => p.IsHigh → ¬q.IsLow

theorem isJoined_cons_iff {p : CodePoint} {text : CodeText} :
    IsJoined (p :: text) ↔ (∀ q ∈ text.head?, p.IsHigh → ¬q.IsLow) ∧ text.IsJoined :=
  List.isChain_cons

theorem isJoined_nil : IsJoined [] := List.isChain_nil

theorem isJoined_singleton (p : CodePoint) : IsJoined [p] := List.isChain_singleton p

@[simp] theorem ofString_inj {s t : String} : ofString s = ofString t ↔ s = t :=
  ⟨Coded.injective s t, congrArg ofString⟩

@[simp] theorem isJoined_ofString (s : String) : (ofString s).IsJoined := by
  unfold ofString
  induction s.toList with
  | nil => exact isJoined_nil
  | cons c rest ih => exact isJoined_cons_iff.mpr ⟨fun _ _ hHigh => hHigh.elim, ih⟩

theorem chars?_ofString (s : String) : (ofString s).chars? = some s.toList := by
  unfold ofString
  induction s.toList with
  | nil => rfl
  | cons c rest ih => rw [List.map_cons, chars?, ih, Option.map_some]

theorem string?_ofString (s : String) : (ofString s).string? = some s := by
  rw [string?, chars?_ofString, Option.map_some, String.ofList_toList]

end CodeText
end SchemaModels
