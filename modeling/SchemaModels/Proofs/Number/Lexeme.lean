import SchemaModels.Number.Numeral
import SchemaModels.Proofs.Text.Character

/-!
Numbers as JSON and the schema language write them: an optional minus, digits
that do not start with a needless zero, and perhaps a fraction and an exponent.
The free readers of numbers accept all of them, up to the number of digits that
an integer may have.
-/
namespace SchemaModels

open Numeral (isDecimalDigit)

namespace Numeral

theorem isDecimalDigit_iff {c : Char} : isDecimalDigit c = true ↔ 48 ≤ c.toNat ∧ c.toNat ≤ 57 := by
  simp only [isDecimalDigit, Bool.and_eq_true, decide_eq_true_eq]
  exact Iff.rfl

/-- A digit is none of the other characters. -/
theorem ne_of_isDecimalDigit {c d : Char} (hDigit : isDecimalDigit c = true)
    (hOther : isDecimalDigit d = false) : c ≠ d := by
  rintro rfl
  rw [hDigit] at hOther
  cases hOther

end Numeral

/-- Digits without a needless zero in front of them. -/
structure IsWhole (chars : List Char) : Prop where
  nonempty : chars ≠ []
  digits : ∀ c ∈ chars, isDecimalDigit c
  leading : chars.head? = some '0' → chars = ['0']

/-- Nothing, or a point and digits. -/
inductive IsFraction : List Char → Prop where
  | absent : IsFraction []
  | given {digits : List Char} (nonempty : digits ≠ [])
      (hDigits : ∀ c ∈ digits, isDecimalDigit c) : IsFraction ('.' :: digits)

/-- Nothing, or a letter, perhaps a sign, and digits. -/
inductive IsExponent : List Char → Prop where
  | absent : IsExponent []
  | given {letter : Char} {sign digits : List Char} (hLetter : letter = 'e' ∨ letter = 'E')
      (hSign : sign = [] ∨ sign = ['-'] ∨ sign = ['+']) (nonempty : digits ≠ [])
      (hDigits : ∀ c ∈ digits, isDecimalDigit c) : IsExponent (letter :: (sign ++ digits))

/-- A number as it is written, in its parts. -/
structure Lexeme where
  minus : Bool
  whole : List Char
  fraction : List Char
  exponent : List Char
  isWhole : IsWhole whole
  isFraction : IsFraction fraction
  isExponent : IsExponent exponent

/-- Nothing is trimmed where nothing is to be skipped. -/
theorem Text.trimEnds_of_forall {α : Type} {skip : α → Bool} {items : List α}
    (h : ∀ a ∈ items, skip a = false) : Text.trimEnds skip items = items := by
  have hDrop {list : List α} (hList : ∀ a ∈ list, skip a = false) : list.dropWhile skip = list := by
    cases list with
    | nil => rfl
    | cons a rest => simp [hList a (List.mem_cons_self ..)]
  rw [Text.trimEnds, hDrop h, hDrop, List.reverse_reverse]
  intro a ha
  exact h a (List.mem_reverse.mp ha)

namespace Lexeme

/-- The characters behind the sign. -/
def unsigned (l : Lexeme) : List Char := l.whole ++ (l.fraction ++ l.exponent)

def chars (l : Lexeme) : List Char := (if l.minus then ['-'] else []) ++ l.unsigned

def text (l : Lexeme) : String := String.ofList l.chars

/-- Whether there is neither a fraction nor an exponent. -/
def IsInteger (l : Lexeme) : Prop := l.fraction = [] ∧ l.exponent = []

/-- The number that all digits before the exponent write. -/
def digits (l : Lexeme) : Nat := Text.decimalNumber (l.whole ++ l.fraction.tail)

/-- The power of ten that goes with the digits. -/
def scale (l : Lexeme) : Int :=
  (Numeral.readExponent l.exponent).getD 0 - l.fraction.tail.length

/-- The characters that may stand in a number. -/
def IsNumeric (c : Char) : Prop :=
  isDecimalDigit c = true ∨ c = '-' ∨ c = '+' ∨ c = '.' ∨ c = 'e' ∨ c = 'E'

theorem IsNumeric.toNat_lt {c : Char} (h : IsNumeric c) : c.toNat < 128 := by
  rcases h with h | rfl | rfl | rfl | rfl | rfl
  · have := Numeral.isDecimalDigit_iff.mp h
    omega
  all_goals decide

theorem IsNumeric.not_blank {c : Char} (h : IsNumeric c) : Text.isAsciiBlank c = false := by
  rcases h with h | rfl | rfl | rfl | rfl | rfl
  · have := Numeral.isDecimalDigit_iff.mp h
    have hSpace : c ≠ ' ' := Numeral.ne_of_isDecimalDigit h rfl
    simp only [Text.isAsciiBlank, Bool.or_eq_false_iff, beq_eq_false_iff_ne, ne_eq,
      Bool.and_eq_false_iff, decide_eq_false_iff_not]
    exact ⟨hSpace, Or.inr (by omega)⟩
  all_goals decide

theorem IsNumeric.ne_underscore {c : Char} (h : IsNumeric c) : c ≠ '_' := by
  rcases h with h | rfl | rfl | rfl | rfl | rfl
  · exact Numeral.ne_of_isDecimalDigit h rfl
  all_goals decide

theorem isNumeric_of_mem_fraction {chars : List Char} (h : IsFraction chars) {c : Char}
    (hc : c ∈ chars) : IsNumeric c := by
  cases h with
  | absent => cases hc
  | given _ hDigits =>
      rcases List.mem_cons.mp hc with rfl | hc
      · simp [IsNumeric]
      · exact Or.inl (hDigits c hc)

theorem isNumeric_of_mem_exponent {chars : List Char} (h : IsExponent chars) {c : Char}
    (hc : c ∈ chars) : IsNumeric c := by
  cases h with
  | absent => cases hc
  | given hLetter hSign _ hDigits =>
      rcases List.mem_cons.mp hc with rfl | hc
      · rcases hLetter with rfl | rfl <;> simp [IsNumeric]
      · rcases List.mem_append.mp hc with hc | hc
        · rcases hSign with rfl | rfl | rfl <;> simp_all [IsNumeric]
        · exact Or.inl (hDigits c hc)

theorem isNumeric_of_mem_unsigned (l : Lexeme) {c : Char} (hc : c ∈ l.unsigned) :
    IsNumeric c := by
  simp only [unsigned, List.mem_append] at hc
  rcases hc with hc | hc | hc
  · exact Or.inl (l.isWhole.digits c hc)
  · exact isNumeric_of_mem_fraction l.isFraction hc
  · exact isNumeric_of_mem_exponent l.isExponent hc

theorem isNumeric_of_mem (l : Lexeme) {c : Char} (hc : c ∈ l.chars) : IsNumeric c := by
  rcases List.mem_append.mp hc with hc | hc
  · split at hc
    · simp_all [IsNumeric]
    · cases hc
  · exact l.isNumeric_of_mem_unsigned hc

/-- The first character behind the sign is a digit. -/
theorem exists_unsigned_eq (l : Lexeme) :
    ∃ c rest, l.unsigned = c :: rest ∧ isDecimalDigit c = true := by
  cases hWhole : l.whole with
  | nil => exact (l.isWhole.nonempty hWhole).elim
  | cons c rest =>
      refine ⟨c, rest ++ (l.fraction ++ l.exponent), by rw [unsigned, hWhole]; rfl, ?_⟩
      exact l.isWhole.digits c (by rw [hWhole]; exact List.mem_cons_self ..)

theorem splitSign_chars (l : Lexeme) : Numeral.splitSign l.chars = (l.minus, l.unsigned) := by
  obtain ⟨c, rest, hUnsigned, hDigit⟩ := l.exists_unsigned_eq
  cases hMinus : l.minus with
  | true => simp [chars, hMinus, Numeral.splitSign]
  | false =>
      have hm : c ≠ '-' := Numeral.ne_of_isDecimalDigit hDigit rfl
      have hp : c ≠ '+' := Numeral.ne_of_isDecimalDigit hDigit rfl
      simp only [chars, hMinus, Bool.false_eq_true, if_false, List.nil_append, hUnsigned]
      rw [Numeral.splitSign]
      · intro rest' h
        exact hm (List.cons.inj h).1
      · intro rest' h
        exact hp (List.cons.inj h).1

theorem toAscii_chars (l : Lexeme) : Numeral.toAscii l.chars = l.chars := by
  rw [Numeral.toAscii, if_pos]
  rw [List.all_eq_true]
  intro c hc
  simpa using (l.isNumeric_of_mem hc).toNat_lt

theorem exists_readExponent (l : Lexeme) :
    ∃ power, Numeral.readExponent l.exponent = some power := by
  have hExponent := l.isExponent
  generalize l.exponent = exponent at hExponent
  cases hExponent with
  | absent => exact ⟨0, rfl⟩
  | @given letter sign digits hLetter hSign nonempty hDigits =>
      have hAll : digits.all isDecimalDigit = true := by simpa using hDigits
      have hEmpty : digits.isEmpty = false := by simpa using nonempty
      have hSplit : (Numeral.splitSign (sign ++ digits)).2 = digits := by
        rcases hSign with rfl | rfl | rfl
        · cases digits with
          | nil => exact (nonempty rfl).elim
          | cons d rest =>
              have hd := hDigits d (List.mem_cons_self ..)
              have hm : d ≠ '-' := Numeral.ne_of_isDecimalDigit hd rfl
              have hp : d ≠ '+' := Numeral.ne_of_isDecimalDigit hd rfl
              simp [Numeral.splitSign, hm, hp]
        · rfl
        · rfl
      simp [Numeral.readExponent, hLetter, hSplit, hAll, hEmpty]

/-- The fraction and the exponent begin with no digit. -/
theorem head?_not_digit {fraction exponent : List Char} (hFraction : IsFraction fraction)
    (hExponent : IsExponent exponent) :
    ∀ c ∈ (fraction ++ exponent).head?, isDecimalDigit c = false := by
  intro c hc
  cases hFraction with
  | absent =>
      cases hExponent with
      | absent => cases hc
      | given hLetter _ _ _ =>
          cases hc
          rcases hLetter with rfl | rfl <;> decide
  | given _ _ =>
      cases hc
      decide

/-- The first character of an exponent is a letter. -/
theorem exponent_ne_point (l : Lexeme) (rest : List Char) : l.exponent ≠ '.' :: rest := by
  intro h
  have hExponent := l.isExponent
  rw [h] at hExponent
  cases hExponent with
  | given hLetter _ _ _ => rcases hLetter with h | h <;> exact absurd h (by decide)

theorem readDecimal_unsigned (l : Lexeme) :
    Numeral.readDecimal l.unsigned = some (l.digits, l.scale) := by
  obtain ⟨power, hPower⟩ := l.exists_readExponent
  have hWhole : l.whole.isEmpty = false := by simpa using l.isWhole.nonempty
  have hTake : l.unsigned.takeWhile isDecimalDigit = l.whole :=
    Text.takeWhile_run l.isWhole.digits (head?_not_digit l.isFraction l.isExponent)
  have hDrop : l.unsigned.dropWhile isDecimalDigit = l.fraction ++ l.exponent :=
    Text.dropWhile_run l.isWhole.digits (head?_not_digit l.isFraction l.isExponent)
  simp only [Numeral.readDecimal, hTake, hDrop, digits, scale, hPower, Option.getD_some]
  have hPoint := l.exponent_ne_point
  have hHead := head?_not_digit .absent l.isExponent
  have hFraction := l.isFraction
  generalize l.fraction = fraction at hFraction
  cases hFraction with
  | absent =>
      rw [List.nil_append]
      split
      · rename_i rest h
        exact (hPoint _ h).elim
      · simp [hWhole, hPower]
  | @given fractionDigits nonempty hDigits =>
      rw [List.nil_append] at hHead
      have hTake' := Text.takeWhile_run hDigits hHead
      have hDrop' := Text.dropWhile_run hDigits hHead
      simp [hWhole, hPower, hTake', hDrop']

/-- A number is none of the words for special numbers: it begins with a digit. -/
theorem lower_unsigned_ne (l : Lexeme) (word : String) {first : Char}
    (hWord : word.toList.head? = some first) (hFirst : isDecimalDigit first = false) :
    String.ofList (l.unsigned.map Char.toLower) ≠ word := by
  obtain ⟨c, rest, hUnsigned, hDigit⟩ := l.exists_unsigned_eq
  intro h
  have hLower : c.toLower = c := by
    have hRange := Numeral.isDecimalDigit_iff.mp hDigit
    refine dif_neg ?_
    rintro ⟨hLow, -⟩
    have : 65 ≤ c.toNat := hLow
    omega
  rw [← h, String.toList_ofList, hUnsigned, List.map_cons, hLower] at hWord
  cases hWord
  rw [hDigit] at hFirst
  cases hFirst

theorem readFloat?_chars (l : Lexeme) :
    Numeral.readFloat? l.chars = some (.ofDecimal l.minus l.digits l.scale) := by
  have hInf := l.lower_unsigned_ne "inf" rfl rfl
  have hInfinity := l.lower_unsigned_ne "infinity" rfl rfl
  have hNan := l.lower_unsigned_ne "nan" rfl rfl
  simp [Numeral.readFloat?, l.splitSign_chars, hInf, hInfinity, hNan, l.readDecimal_unsigned]

theorem underscore_not_mem (l : Lexeme) : '_' ∉ l.chars :=
  fun h => (l.isNumeric_of_mem h).ne_underscore rfl

/-- Every lexeme writes a double. -/
theorem readFloat_text (l : Lexeme) :
    Numeral.readFloat l.text = .ok (.ofDecimal l.minus l.digits l.scale) := by
  have hTrim : Text.trimEnds Text.isAsciiBlank l.chars = l.chars :=
    Text.trimEnds_of_forall fun c hc => (l.isNumeric_of_mem hc).not_blank
  simp [Numeral.readFloat, text, l.toAscii_chars, hTrim, l.underscore_not_mem,
    l.readFloat?_chars]

/-- The digits of a lexeme that is an integer are those of its whole part. -/
theorem countP_text (l : Lexeme) (hInteger : l.IsInteger) :
    l.text.toList.countP isDecimalDigit = l.whole.length := by
  have hWhole : l.whole.countP isDecimalDigit = l.whole.length :=
    List.countP_eq_length.mpr l.isWhole.digits
  rw [text, String.toList_ofList, chars, unsigned, hInteger.1, hInteger.2, List.countP_append,
    List.append_nil, List.append_nil, hWhole]
  split <;> simp [isDecimalDigit]

/-- The value of a digit in base ten. -/
theorem digitIn?_ten {c : Char} (h : isDecimalDigit c = true) :
    Numeral.digitIn? 10 c = some (c.toNat - 48) := by
  have hRange := Numeral.isDecimalDigit_iff.mp h
  rw [isDecimalDigit] at h
  simp only [Numeral.digitIn?, h, if_true, Option.filter_some]
  rw [if_pos]
  simp only [decide_eq_true_eq]
  omega

/-- In base ten the digits of a whole number are read as they are. -/
theorem dropBaseMark_ten (chars : List Char) : Numeral.dropBaseMark 10 chars = chars := by
  fun_cases Numeral.dropBaseMark 10 chars <;> simp_all

theorem underscoresBetween_of_not_mem {chars : List Char} (h : '_' ∉ chars) :
    Numeral.underscoresBetween chars = true := by
  fun_induction Numeral.underscoresBetween chars with
  | case1 => rfl
  | case2 => simp at h
  | case3 => simp at h
  | case4 c rest _ _ ih => exact ih fun hc => h (List.mem_cons_of_mem _ hc)

/-- Reading digits one by one in base ten gives the number that they write. -/
theorem foldl_digits {chars : List Char} (h : ∀ c ∈ chars, isDecimalDigit c) :
    chars.foldl (fun n c => 10 * n + (Numeral.digitIn? 10 c).getD 0) 0 =
      Text.decimalNumber chars := by
  apply List.foldl_ext
  intro n c hc
  rw [digitIn?_ten (h c hc), Option.getD_some]

/-- A lexeme without fraction and exponent writes an integer, unless it has too
many digits. -/
theorem readInteger_text (l : Lexeme) (hInteger : l.IsInteger) :
    Numeral.readInteger 10 l.text =
      if maxIntegerDigits < l.whole.length then .error (.tooManyDigits l.whole.length)
      else .ok (if l.minus then -(l.digits : Int) else l.digits) := by
  obtain ⟨hFraction, hExponent⟩ := hInteger
  have hUnsigned : l.unsigned = l.whole := by simp [unsigned, hFraction, hExponent]
  have hDigits := l.isWhole.digits
  have hBlank : l.chars.dropWhile Text.isAsciiBlank = l.chars :=
    List.dropWhile_eq_self_iff.mpr fun _ => by
      simpa using (l.isNumeric_of_mem (List.getElem_mem _)).not_blank
  have hAllowed : ∀ c ∈ l.whole, ((Numeral.digitIn? 10 c).isSome || c == '_') = true := by
    intro c hc
    rw [digitIn?_ten (hDigits c hc)]
    rfl
  have hTake := List.takeWhile_eq_self_iff.mpr hAllowed
  have hDrop := List.dropWhile_eq_nil_iff.mpr hAllowed
  have hFilter : l.whole.filter (fun c => (Numeral.digitIn? 10 c).isSome) = l.whole := by
    apply List.filter_eq_self.mpr
    intro c hc
    rw [digitIn?_ten (hDigits c hc)]
    rfl
  have hUnderscore : '_' ∉ l.whole := by
    intro h
    exact Numeral.ne_of_isDecimalDigit (hDigits '_' h) rfl rfl
  have hHead : (l.whole.head? == some '_') = false := by
    rw [beq_eq_false_iff_ne]
    exact fun h => hUnderscore (List.mem_of_mem_head? h)
  have hEmpty : l.whole.isEmpty = false := by simpa using l.isWhole.nonempty
  simp only [Numeral.readInteger, text, String.toList_ofList, l.toAscii_chars, hBlank,
    l.splitSign_chars, hUnsigned, dropBaseMark_ten, hTake, hDrop, hFilter, hHead,
    underscoresBetween_of_not_mem hUnderscore, foldl_digits hDigits]
  simp [hEmpty, digits, hFraction]

end Lexeme
end SchemaModels
