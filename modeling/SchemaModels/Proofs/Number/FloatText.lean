import SchemaModels.Number.FloatText
import SchemaModels.Proofs.Number.Lexeme
import SchemaModels.Proofs.Number.Shortest

/-!
The written form of a double is a number with a fraction or an exponent, and it
reads back as the double.
-/
namespace SchemaModels

open Numeral (isDecimalDigit)

namespace Numeral

theorem isDecimalDigit_of_mem_toDigits {n : Nat} {c : Char} (h : c ∈ Nat.toDigits 10 n) :
    isDecimalDigit c = true := by
  have hDigit := Nat.isDigit_of_mem_toDigits (by decide) (by decide) h
  rw [isDecimalDigit_iff]
  simp only [Char.isDigit, Bool.and_eq_true, decide_eq_true_eq] at hDigit
  exact hDigit

/-- A positive number is written without a zero in front. -/
theorem head?_toDigits_ne_zero {n : Nat} (h : 0 < n) : (Nat.toDigits 10 n).head? ≠ some '0' := by
  induction n using Nat.strongRecOn with
  | ind n ih =>
      rw [Nat.toDigits_eq_if (by decide)]
      split
      · rename_i hSmall
        simp only [List.head?_cons, ne_eq, Option.some.injEq]
        intro hZero
        have := Nat.toNat_digitChar_sub_48_of_lt_ten hSmall
        rw [hZero] at this
        simp at this
        omega
      · rename_i hLarge
        rw [List.head?_append_of_ne_nil _ Nat.toDigits_ne_nil]
        exact ih (n / 10) (by omega) (by omega)

theorem isWhole_toDigits (n : Nat) : IsWhole (Nat.toDigits 10 n) := by
  refine ⟨Nat.toDigits_ne_nil, fun c => isDecimalDigit_of_mem_toDigits, fun hZero => ?_⟩
  rcases Nat.eq_zero_or_pos n with rfl | hPositive
  · rfl
  · exact (head?_toDigits_ne_zero hPositive hZero).elim

/-- The number that some digits write, in the words of the library. -/
theorem decimalNumber_eq (digits : List Char) :
    Text.decimalNumber digits = Nat.ofDigitChars 10 digits 0 := by
  rw [Nat.ofDigitChars_eq_foldl]
  rfl

theorem decimalNumber_toDigits (n : Nat) : Text.decimalNumber (Nat.toDigits 10 n) = n := by
  rw [decimalNumber_eq, Nat.ofDigitChars_ten_toDigits]

/-- Zeros in front change no number. -/
theorem decimalNumber_zeros_append (count : Nat) (digits : List Char) :
    Text.decimalNumber (List.replicate count '0' ++ digits) = Text.decimalNumber digits := by
  rw [decimalNumber_eq, decimalNumber_eq, Nat.ofDigitChars_append,
    Nat.ofDigitChars_replicate_zero, Nat.mul_zero]

/-- Zeros at the end multiply it by ten each. -/
theorem decimalNumber_append_zeros (digits : List Char) (count : Nat) :
    Text.decimalNumber (digits ++ List.replicate count '0') =
      10 ^ count * Text.decimalNumber digits := by
  rw [decimalNumber_eq, decimalNumber_eq, Nat.ofDigitChars_append,
    Nat.ofDigitChars_replicate_zero]

end Numeral

open Numeral

/-- The number that a lexeme writes without its sign. -/
def Lexeme.magnitude (l : Lexeme) : ℚ := l.digits * 10 ^ l.scale

/-- Some characters, behind a sign, write a number that is no integer. -/
def WritesFloat (chars : List Char) (number : ℚ) : Prop :=
  ∀ minus, ∃ l : Lexeme, l.minus = minus ∧ l.unsigned = chars ∧ ¬l.IsInteger ∧
    l.magnitude = number

/-- Digits, a point and more digits. -/
theorem writesFloat_fraction {whole fraction : List Char} (hWhole : IsWhole whole)
    (hNonempty : fraction ≠ []) (hDigits : ∀ c ∈ fraction, isDecimalDigit c) :
    WritesFloat (whole ++ '.' :: fraction)
      (Text.decimalNumber (whole ++ fraction) * 10 ^ (-(fraction.length : Int))) := by
  intro minus
  refine ⟨⟨minus, whole, '.' :: fraction, [], hWhole, .given hNonempty hDigits, .absent⟩, rfl,
    by simp [Lexeme.unsigned], by simp [Lexeme.IsInteger], ?_⟩
  simp [Lexeme.magnitude, Lexeme.digits, Lexeme.scale, readExponent]

/-- An exponent with its sign, as scientific notation writes it. -/
def exponentChars (exponent : Int) : List Char :=
  'e' :: ([if exponent < 0 then '-' else '+'] ++
    (List.replicate (2 - (Nat.toDigits 10 exponent.natAbs).length) '0' ++
      Nat.toDigits 10 exponent.natAbs))

theorem isDecimalDigit_of_mem_padded {count n : Nat} {c : Char}
    (h : c ∈ List.replicate count '0' ++ Nat.toDigits 10 n) : isDecimalDigit c = true := by
  rcases List.mem_append.mp h with h | h
  · rw [List.eq_of_mem_replicate h]
    rfl
  · exact isDecimalDigit_of_mem_toDigits h

theorem isExponent_exponentChars (exponent : Int) : IsExponent (exponentChars exponent) := by
  refine .given (Or.inl rfl) ?_ ?_ fun c => isDecimalDigit_of_mem_padded
  · split <;> simp
  · exact List.append_ne_nil_of_right_ne_nil _ Nat.toDigits_ne_nil

theorem readExponent_exponentChars (exponent : Int) :
    readExponent (exponentChars exponent) = some exponent := by
  have hNumber : Text.decimalNumber
      (List.replicate (2 - (Nat.toDigits 10 exponent.natAbs).length) '0' ++
        Nat.toDigits 10 exponent.natAbs) = exponent.natAbs := by
    rw [decimalNumber_zeros_append, decimalNumber_toDigits]
  have hAll : (List.replicate (2 - (Nat.toDigits 10 exponent.natAbs).length) '0' ++
      Nat.toDigits 10 exponent.natAbs).all isDecimalDigit = true := by
    rw [List.all_eq_true]
    exact fun c => isDecimalDigit_of_mem_padded
  have hEmpty : (List.replicate (2 - (Nat.toDigits 10 exponent.natAbs).length) '0' ++
      Nat.toDigits 10 exponent.natAbs).isEmpty = false := by simp
  rw [exponentChars]
  generalize List.replicate (2 - (Nat.toDigits 10 exponent.natAbs).length) '0' ++
    Nat.toDigits 10 exponent.natAbs = digits at *
  by_cases hNegative : exponent < 0
  · simp [hNegative, readExponent, splitSign, hAll, hEmpty, hNumber, abs_of_neg hNegative]
  · simp [hNegative, readExponent, splitSign, hAll, hEmpty, hNumber, not_lt.mp hNegative]

namespace Decimal

section

variable {digits : List Char} (hWhole : IsWhole digits) (hLead : digits.head? ≠ some '0')
include hWhole hLead

/-- Zeros may be written behind digits that do not start with one. -/
theorem isWhole_append_zeros (count : Nat) : IsWhole (digits ++ List.replicate count '0') := by
  refine ⟨by simp [hWhole.nonempty], fun c hc => ?_, fun hZero => ?_⟩
  · rcases List.mem_append.mp hc with hc | hc
    · exact hWhole.digits c hc
    · rw [List.eq_of_mem_replicate hc]
      rfl
  · rw [List.head?_append_of_ne_nil _ hWhole.nonempty] at hZero
    exact (hLead hZero).elim

/-- Zeros and a point behind the digits. -/
theorem writesFloat_behind (count : Nat) :
    WritesFloat (digits ++ List.replicate count '0' ++ ['.', '0'])
      (Text.decimalNumber digits * 10 ^ (count : Int)) := by
  have hText := writesFloat_fraction (isWhole_append_zeros hWhole hLead count)
    (List.cons_ne_nil '0' []) (by simp [isDecimalDigit])
  have hDigits := decimalNumber_append_zeros (digits ++ List.replicate count '0') 1
  have hNumber : (Text.decimalNumber digits * 10 ^ (count : Int) : ℚ) =
      Text.decimalNumber (digits ++ List.replicate count '0' ++ ['0']) *
        10 ^ (-(['0'].length : Int)) := by
    rw [List.replicate_one] at hDigits
    rw [hDigits, decimalNumber_append_zeros, zpow_natCast]
    push_cast
    norm_num
    ring
  rw [hNumber]
  exact hText

/-- A point among the digits. -/
theorem writesFloat_among {places : Nat} (hPlaces : places ≠ 0) (hInside : places < digits.length) :
    WritesFloat (digits.take (digits.length - places) ++ '.' ::
        digits.drop (digits.length - places))
      (Text.decimalNumber digits * 10 ^ (-(places : Int))) := by
  have hLength : (digits.drop (digits.length - places)).length = places := by
    rw [List.length_drop]
    omega
  have hFront : IsWhole (digits.take (digits.length - places)) := by
    refine ⟨?_, fun c hc => hWhole.digits c (List.mem_of_mem_take hc), fun hZero => ?_⟩
    · rw [← List.length_pos_iff, List.length_take]
      omega
    · rw [List.head?_take, if_neg (by omega)] at hZero
      exact (hLead hZero).elim
  have hSome : digits.drop (digits.length - places) ≠ [] := by
    rw [← List.length_pos_iff]
    omega
  have hText := writesFloat_fraction hFront hSome fun c hc =>
    hWhole.digits c (List.mem_of_mem_drop hc)
  rwa [List.take_append_drop, hLength] at hText

omit hLead in
/-- A point and zeros in front of the digits. -/
theorem writesFloat_before {places : Nat} (hOutside : digits.length ≤ places) :
    WritesFloat (['0', '.'] ++ List.replicate (places - digits.length) '0' ++ digits)
      (Text.decimalNumber digits * 10 ^ (-(places : Int))) := by
  have hSome : List.replicate (places - digits.length) '0' ++ digits ≠ [] :=
    List.append_ne_nil_of_right_ne_nil _ hWhole.nonempty
  have hDigits : ∀ c ∈ List.replicate (places - digits.length) '0' ++ digits,
      isDecimalDigit c = true := by
    refine List.forall_mem_append.mpr ⟨fun c hc => ?_, hWhole.digits⟩
    rw [List.eq_of_mem_replicate hc]
    rfl
  have hText := writesFloat_fraction (isWhole_toDigits 0) hSome hDigits
  have hLength : (List.replicate (places - digits.length) '0' ++ digits).length = places := by
    rw [List.length_append, List.length_replicate]
    omega
  have hZero := decimalNumber_zeros_append 1 (List.replicate (places - digits.length) '0' ++ digits)
  rwa [Nat.toDigits_zero, hLength, ← List.replicate_one, hZero, decimalNumber_zeros_append] at hText

/-- A number is written with a point among its digits, behind them or in front. -/
theorem writesFloat_positional (scale : Int) :
    WritesFloat (positional digits scale) (Text.decimalNumber digits * 10 ^ scale) := by
  cases scale with
  | ofNat count => exact writesFloat_behind hWhole hLead count
  | negSucc k =>
      have hScale : Int.negSucc k = -((k + 1 : Nat) : Int) := rfl
      rw [positional, hScale]
      by_cases hInside : k + 1 < digits.length
      · simp only [hInside, if_true]
        exact writesFloat_among hWhole hLead k.succ_ne_zero hInside
      · simp only [hInside, if_false]
        exact writesFloat_before hWhole (not_lt.mp hInside)

omit hLead in
/-- One digit, the others behind the point, and an exponent. -/
theorem writesFloat_scientific (exponent : Int) :
    WritesFloat (scientific digits exponent)
      (Text.decimalNumber digits * 10 ^ (exponent + 1 - digits.length)) := by
  intro minus
  cases digits with
  | nil => exact (hWhole.nonempty rfl).elim
  | cons d rest =>
      have hFirst : IsWhole [d] := by
        refine ⟨by simp, fun c hc => ?_, fun hZero => by simpa using hZero⟩
        rw [List.mem_singleton.mp hc]
        exact hWhole.digits d (List.mem_cons_self ..)
      have hScale : exponent + 1 - ((d :: rest).length : Int) = exponent - rest.length := by
        rw [List.length_cons]
        push_cast
        ring
      cases rest with
      | nil =>
          refine ⟨⟨minus, [d], [], exponentChars exponent, hFirst, .absent,
            isExponent_exponentChars exponent⟩, rfl, ?_, ?_, ?_⟩
          · simp [Lexeme.unsigned, scientific, exponentChars]
          · simp [Lexeme.IsInteger, exponentChars]
          · rw [hScale]
            simp [Lexeme.magnitude, Lexeme.digits, Lexeme.scale, readExponent_exponentChars]
      | cons d' rest =>
          refine ⟨⟨minus, [d], '.' :: d' :: rest, exponentChars exponent, hFirst,
            .given (by simp) fun c hc => hWhole.digits c (List.mem_cons_of_mem _ hc),
            isExponent_exponentChars exponent⟩, rfl, ?_, ?_, ?_⟩
          · simp [Lexeme.unsigned, scientific, exponentChars]
          · simp [Lexeme.IsInteger]
          · rw [hScale]
            simp [Lexeme.magnitude, Lexeme.digits, Lexeme.scale, readExponent_exponentChars]

end

/-- The text of a positive decimal writes it. -/
theorem writesFloat_text (format : FloatFormat) {d : Decimal} (h : 0 < d.digits) :
    WritesFloat (d.text format) (d.digits * 10 ^ d.scale) := by
  have hWhole := isWhole_toDigits d.digits
  have hLead := head?_toDigits_ne_zero h
  have hNumber := decimalNumber_toDigits d.digits
  unfold text
  dsimp only
  rw [Nat.toString_eq_repr, Nat.toList_repr]
  split
  · have hText := writesFloat_positional hWhole hLead d.scale
    rw [hNumber] at hText
    exact hText
  · have hText := writesFloat_scientific hWhole
      (d.scale + (Nat.toDigits 10 d.digits).length - 1)
    rw [hNumber, sub_add_cancel, add_sub_cancel_right] at hText
    exact hText

end Decimal

namespace Binary64

/-- The text of a finite double is a number but no integer, and reading it gives
the double again. -/
theorem exists_lexeme (format : FloatFormat) (negative : Bool) {mantissa : Nat} {exponent : Int}
    (hCanonical : Canonical mantissa exponent) :
    ∃ l : Lexeme, l.text = (finite negative mantissa exponent hCanonical).text format ∧
      ¬l.IsInteger ∧
      ofDecimal l.minus l.digits l.scale = finite negative mantissa exponent hCanonical := by
  have hSign (l : Lexeme) (hMinus : l.minus = negative) :
      l.text = (if negative then "-" else "") ++ String.ofList l.unsigned := by
    rw [Lexeme.text, Lexeme.chars, hMinus, String.ofList_append]
    cases negative with
    | true => rfl
    | false => rfl
  rcases Nat.eq_zero_or_pos mantissa with rfl | hPositive
  · obtain ⟨-, -, -, hLeast⟩ := id hCanonical
    obtain rfl : exponent = -1074 := hLeast.resolve_left (by decide)
    let l : Lexeme := ⟨negative, ['0'], ['.', '0'], [], isWhole_toDigits 0,
      .given (by simp) (by simp [isDecimalDigit]), .absent⟩
    refine ⟨l, ?_, by simp [l, Lexeme.IsInteger], ?_⟩
    · rw [hSign l rfl, text, if_pos rfl]
      rfl
    · have hZero : l.digits = 0 := rfl
      unfold ofDecimal
      rw [if_pos hZero]
      rfl
  · have hRounds := Decimal.shortest_roundsTo hCanonical hPositive
    have hDigits : 0 < (Decimal.shortest mantissa exponent).digits := by
      rcases Nat.eq_zero_or_pos (Decimal.shortest mantissa exponent).digits with hZero | hDigits
      · rw [hZero] at hRounds
        have := (lowEnd_pos hPositive).trans_le hRounds.above
        simp at this
      · exact hDigits
    obtain ⟨l, hMinus, hUnsigned, hInteger, hMagnitude⟩ :=
      Decimal.writesFloat_text format hDigits negative
    refine ⟨l, ?_, hInteger, ?_⟩
    · rw [hSign l hMinus, hUnsigned, text, if_neg hPositive.ne']
    · rw [← hMagnitude] at hRounds
      rw [hMinus]
      exact ofDecimal_eq negative hCanonical hPositive hRounds

end Binary64
end SchemaModels
