import Mathlib.Data.List.Induction
import Mathlib.Data.Nat.Digits.Defs
import SchemaModels.Model.Lenient
import SchemaModels.Proofs.Number.Lexeme

/-!
How long the integers are that reading gives. Every integer that a text writes, and
every integer that a lenient check takes from other data, has few enough digits to
be written again.
-/
namespace SchemaModels

open Numeral (isDecimalDigit)

/-- An integer has no more decimal digits than a text may write. -/
def IsShort (n : Int) : Prop := (Nat.toDigits 10 n.natAbs).length ≤ maxIntegerDigits

instance (n : Int) : Decidable (IsShort n) :=
  inferInstanceAs (Decidable ((Nat.toDigits 10 n.natAbs).length ≤ maxIntegerDigits))

theorem isShort_of_lt {n : Int} {count : Nat} (hCount : count ≤ maxIntegerDigits)
    (h : n.natAbs < 10 ^ count) : IsShort n := by
  have hMost : 0 < maxIntegerDigits := by decide
  exact Nat.toDigits_length 10 _ _ hMost (h.trans_le (Nat.pow_le_pow_right (by decide) hCount))

/-- A number of so many digits, with either sign. -/
theorem isShort_signed (negative : Bool) {n count : Nat} (hCount : count ≤ maxIntegerDigits)
    (h : n < 10 ^ count) : IsShort (if negative then -(n : Int) else n) := by
  have hAbs : (if negative then -(n : Int) else n).natAbs = n := by
    cases negative <;> simp
  exact isShort_of_lt hCount (hAbs.symm ▸ h)

/-- Digits read one by one make a number below the power of their count. -/
theorem foldl_digits_lt {base : Nat} {valueOf : Char → Nat} {chars : List Char}
    (h : ∀ c ∈ chars, valueOf c < base) :
    chars.foldl (fun n c => base * n + valueOf c) 0 < base ^ chars.length := by
  induction chars using List.reverseRecOn with
  | nil => simp
  | append_singleton chars c ih =>
      rw [List.forall_mem_append, List.forall_mem_singleton] at h
      have hFirst := ih h.1
      rw [List.foldl_append, List.foldl_cons, List.foldl_nil, List.length_append,
        List.length_singleton, Nat.pow_succ']
      calc base * chars.foldl (fun n c => base * n + valueOf c) 0 + valueOf c
          < base * (chars.foldl (fun n c => base * n + valueOf c) 0 + 1) :=
            Nat.add_lt_add_left h.2 _
        _ ≤ base * base ^ chars.length := Nat.mul_le_mul_left _ hFirst

theorem decimalNumber_lt {chars : List Char} (h : ∀ c ∈ chars, isDecimalDigit c) :
    Text.decimalNumber chars < 10 ^ chars.length := by
  apply foldl_digits_lt
  intro c hc
  have hRange := Numeral.isDecimalDigit_iff.mp (h c hc)
  omega

namespace Numeral

theorem digitIn?_lt {base : Nat} (hBase : 0 < base) (c : Char) :
    (digitIn? base c).getD 0 < base := by
  cases hDigit : digitIn? base c with
  | none => exact hBase
  | some value =>
      rw [digitIn?] at hDigit
      simpa using (Option.filter_eq_some_iff.mp hDigit).2

/-- An integer that a text writes in base ten has few digits. -/
theorem readInteger_isShort {text : String} {n : Int} (h : readInteger 10 text = .ok n) :
    IsShort n := by
  simp only [readInteger] at h
  split at h
  · cases h
  split at h
  · cases h
  rename_i hMany
  split at h
  · cases h
  obtain rfl := Except.ok.inj h
  simp only [Nat.reduceBEq, Bool.or_false, Bool.not_false, Bool.and_true, decide_eq_true_eq,
    not_lt] at hMany
  exact isShort_signed _ hMany (foldl_digits_lt fun c _ => digitIn?_lt (by decide) c)

theorem splitSign_suffix (text : List Char) : (splitSign text).2 <:+ text := by
  fun_cases splitSign text with
  | case1 rest => exact List.suffix_cons '-' rest
  | case2 rest => exact List.suffix_cons '+' rest
  | case3 => exact List.suffix_refl text

end Numeral

theorem Text.trimEnds_sublist {α : Type} (skip : α → Bool) (items : List α) :
    (trimEnds skip items).Sublist items := by
  have hBack := List.dropWhile_sublist (l := (items.dropWhile skip).reverse) skip
  exact (List.reverse_sublist.mp (by simpa [trimEnds] using hBack)).trans
    (List.dropWhile_sublist skip)

namespace Lenient

/-- The integer of a text that is short enough has few digits. -/
theorem integerOfText?_isShort {s : String} (hLength : s.length ≤ maxIntegerDigits) {n : Int}
    (h : integerOfText? s = some n) : IsShort n := by
  obtain rfl := Option.some.inj (Option.ite_none_left_eq_some.mp h).2
  refine isShort_signed _ (le_trans ?_ hLength)
    (decimalNumber_lt fun c hc => List.of_mem_filter hc)
  calc (_ : Nat) ≤ _ := (List.filter_sublist.trans (List.takeWhile_sublist _)).length_le
    _ ≤ (Text.trimEnds Text.isSpace s.toList).length := (Numeral.splitSign_suffix _).length_le
    _ ≤ s.toList.length := (Text.trimEnds_sublist _ _).length_le
    _ = s.length := String.length_toList

/-- What passes a check of the spelling passes it as a string. -/
theorem spelled_eq_valid_iff {α : Type} {s : CodeText} {readWord : String → Checked α} {a : α} :
    spelled s readWord = .valid a ↔ ∃ word, s.string? = some word ∧ readWord word = .valid a := by
  unfold spelled
  cases s.string? <;> simp [Checked.fail]

/-- An integer that a check lets pass has few digits, if those in the data have. -/
theorem integer_isShort {json : Json CodeText} (hGiven : ∀ n, json = .integer n → IsShort n)
    {n : Int} (h : integer json = .valid n) : IsShort n := by
  cases json with
  | integer k =>
      obtain rfl := Checked.valid.inj h
      exact hGiven k rfl
  | boolean b =>
      obtain rfl := Checked.valid.inj h
      cases b <;> decide
  | float x =>
      simp only [integer] at h
      split at h
      · cases h
      split at h
      · cases h
      split at h
      · rename_i k _ hSmall
        obtain rfl := Checked.valid.inj h
        have hCount : 19 ≤ maxIntegerDigits := by decide
        exact isShort_of_lt hCount (hSmall.trans (by decide))
      · cases h
  | text s =>
      obtain ⟨word, -, hWord⟩ := spelled_eq_valid_iff.mp h
      simp only [integerOfText] at hWord
      split at hWord
      · cases hWord
      rename_i hLength
      split at hWord
      · rename_i k hText
        obtain rfl := Checked.valid.inj hWord
        exact integerOfText?_isShort (not_lt.mp hLength) hText
      · cases hWord
  | _ => cases h

end Lenient
end SchemaModels
