import Mathlib.Algebra.Group.Nat.Defs
import Mathlib.Data.List.Basic
import Mathlib.Data.List.TakeWhile
import SchemaModels.Text.Digit

/-!
Codes of characters, the hexadecimal digits that write them, and runs of characters of a
class.
-/
namespace SchemaModels.Text

/-- No character is half a surrogate pair. -/
theorem not_surrogate (c : Char) : c.toNat < 0xd800 ∨ (0xe000 ≤ c.toNat ∧ c.toNat < 0x110000) := by
  rcases c.valid with h | h
  · exact Or.inl h
  · exact Or.inr ⟨Nat.succ_le_of_lt h.1, h.2⟩

/-- A character of ASCII that is shown as itself. -/
def IsVisibleAscii (c : Char) : Prop := 32 ≤ c.toNat ∧ c.toNat < 127

instance (c : Char) : Decidable (IsVisibleAscii c) := instDecidableAnd

theorem IsVisibleAscii.ne {c other : Char} (h : IsVisibleAscii c)
    (hOther : ¬IsVisibleAscii other) : c ≠ other := fun hSame => hOther (hSame ▸ h)

theorem hexValue?_hexDigit {n : Nat} (h : n < 16) : hexValue? (hexDigit n) = some n := by
  have hAll : ∀ k < 16, hexValue? (hexDigit k) = some k := by decide
  exact hAll n h

theorem hexValue?_toUpper_hexDigit {n : Nat} (h : n < 16) :
    hexValue? (hexDigit n).toUpper = some n := by
  have hAll : ∀ k < 16, hexValue? (hexDigit k).toUpper = some k := by decide
  exact hAll n h

theorem hexDigits_four (n : Nat) : hexDigits 4 n =
    [hexDigit (n / 4096 % 16), hexDigit (n / 256 % 16), hexDigit (n / 16 % 16),
      hexDigit (n % 16)] := by
  simp [hexDigits, Nat.div_div_eq_div_mul]

@[simp] theorem length_hexDigits (width n : Nat) : (hexDigits width n).length = width := by
  induction width generalizing n with
  | zero => rfl
  | succ width ih => rw [hexDigits, List.length_append, ih, List.length_singleton]

/-- Digits of either case write a number for which there are enough of them. -/
theorem hexNumber?_map {spelled : Char → Char}
    (hSpelled : ∀ k < 16, hexValue? (spelled (hexDigit k)) = some k) {width n : Nat}
    (h : n < 16 ^ width) : hexNumber? ((hexDigits width n).map spelled) = some n := by
  induction width generalizing n with
  | zero =>
      obtain rfl : n = 0 := by simpa using h
      rfl
  | succ width ih =>
      have hFront : n / 16 < 16 ^ width := by
        rw [Nat.pow_succ] at h
        omega
      have hRead := ih hFront
      have hLast := hSpelled (n % 16) (Nat.mod_lt n (by decide))
      unfold hexNumber? at hRead ⊢
      rw [hexDigits, List.map_append, List.foldlM_append, hRead]
      simp only [List.map_cons, List.map_nil, List.foldlM_cons, List.foldlM_nil, hLast,
        Option.bind_eq_bind, Option.bind_some, Option.map_some, Option.pure_def, Option.some.injEq]
      omega

theorem hexNumber?_hexDigits {width n : Nat} (h : n < 16 ^ width) :
    hexNumber? (hexDigits width n) = some n := by
  have hSame := @hexNumber?_map id (fun _ => hexValue?_hexDigit) width n h
  rwa [List.map_id] at hSame

theorem hexDigit_visible {n : Nat} (h : n < 16) : IsVisibleAscii (hexDigit n) := by
  have hAll : ∀ k < 16, IsVisibleAscii (hexDigit k) := by decide
  exact hAll n h

theorem toUpper_hexDigit_visible {n : Nat} (h : n < 16) :
    IsVisibleAscii (hexDigit n).toUpper := by
  have hAll : ∀ k < 16, IsVisibleAscii (hexDigit k).toUpper := by decide
  exact hAll n h

theorem exists_of_mem_hexDigits (width n : Nat) :
    ∀ c ∈ hexDigits width n, ∃ k < 16, c = hexDigit k := by
  induction width generalizing n with
  | zero => simp [hexDigits]
  | succ width ih =>
      rw [hexDigits, List.forall_mem_append, List.forall_mem_singleton]
      exact ⟨ih _, n % 16, Nat.mod_lt n (by decide), rfl⟩

theorem hexDigits_visible (width n : Nat) : ∀ c ∈ hexDigits width n, IsVisibleAscii c := by
  intro c hc
  obtain ⟨k, hDigit, rfl⟩ := exists_of_mem_hexDigits width n c hc
  exact hexDigit_visible hDigit

section Runs

variable {p : Char → Bool} {run rest : List Char} (hRun : ∀ c ∈ run, p c = true)
  (hRest : ∀ c ∈ rest.head?, p c = false)

include hRun hRest

/-- A run of characters of a class ends in front of one that is not of the class. -/
theorem takeWhile_run : (run ++ rest).takeWhile p = run := by
  rw [List.takeWhile_append_of_pos hRun]
  cases rest with
  | nil => simp
  | cons c rest => simp [hRest c rfl]

theorem dropWhile_run : (run ++ rest).dropWhile p = rest := by
  rw [List.dropWhile_append_of_pos hRun]
  cases rest with
  | nil => simp
  | cons c rest => simp [hRest c rfl]

end Runs

end SchemaModels.Text
