import SchemaModels.Json.Reader
import SchemaModels.Json.Writer
import SchemaModels.Proofs.Number.FloatText

/-!
Numbers in JSON. A number is read as far as it goes, so it has to be followed by
something that cannot go on with it.
-/
namespace SchemaModels.Json

open Numeral (isDecimalDigit)

/-- What cannot go on with a number. -/
def EndsNumber (rest : List Char) : Prop :=
  ∀ c ∈ rest.head?, isDecimalDigit c = false ∧ c ≠ '.' ∧ c ≠ 'e' ∧ c ≠ 'E'

theorem EndsNumber.not_digit {rest : List Char} (h : EndsNumber rest) :
    ∀ c ∈ rest.head?, isDecimalDigit c = false :=
  fun c hc => (h c hc).1

theorem wholeDigits_append {whole rest : List Char} (hWhole : IsWhole whole)
    (hRest : ∀ c ∈ rest.head?, isDecimalDigit c = false) :
    wholeDigits (whole ++ rest) = (whole, rest) := by
  by_cases hZero : whole.head? = some '0'
  · rw [hWhole.leading hZero]
    rfl
  · rw [wholeDigits, Text.takeWhile_run hWhole.digits hRest,
      Text.dropWhile_run hWhole.digits hRest]
    intro after hCons
    cases whole with
    | nil => exact hWhole.nonempty rfl
    | cons c others =>
        obtain ⟨rfl, -⟩ := List.cons.inj hCons
        exact hZero rfl

theorem fractionPart_append {fraction rest : List Char} (hFraction : IsFraction fraction)
    (hRest : ∀ c ∈ rest.head?, isDecimalDigit c = false ∧ c ≠ '.') :
    fractionPart (fraction ++ rest) = (fraction, rest) := by
  cases hFraction with
  | absent =>
      rw [List.nil_append, fractionPart]
      rintro after rfl
      exact (hRest '.' rfl).2 rfl
  | @given digits nonempty hDigits =>
      have hTake := Text.takeWhile_run hDigits fun c hc => (hRest c hc).1
      have hDrop := Text.dropWhile_run hDigits fun c hc => (hRest c hc).1
      have hEmpty : digits.isEmpty = false := by simpa using nonempty
      simp [fractionPart, hTake, hDrop, hEmpty]

theorem exponentPart_append {exponent rest : List Char} (hExponent : IsExponent exponent)
    (hRest : EndsNumber rest) : exponentPart (exponent ++ rest) = (exponent, rest) := by
  cases hExponent with
  | absent =>
      cases rest with
      | nil => rfl
      | cons c after =>
          obtain ⟨-, -, hLower, hUpper⟩ := hRest c rfl
          simp [exponentPart, hLower, hUpper]
  | @given letter sign digits hLetter hSign nonempty hDigits =>
      have hTake := Text.takeWhile_run hDigits hRest.not_digit
      have hDrop := Text.dropWhile_run hDigits hRest.not_digit
      rcases hSign with rfl | rfl | rfl
      · obtain ⟨d, others, rfl⟩ := List.exists_cons_of_ne_nil nonempty
        have hd := hDigits d (List.mem_cons_self ..)
        have hm : d ≠ '-' := Numeral.ne_of_isDecimalDigit hd rfl
        have hp : d ≠ '+' := Numeral.ne_of_isDecimalDigit hd rfl
        simp only [List.cons_append] at hTake hDrop
        simp [exponentPart, hLetter, hm, hp, hTake, hDrop]
      · simp [exponentPart, hLetter, hTake, hDrop, nonempty]
      · simp [exponentPart, hLetter, hTake, hDrop, nonempty]

theorem minusPart_chars (l : Lexeme) (rest : List Char) :
    minusPart (l.chars ++ rest) =
      (if l.minus then ['-'] else [], l.whole ++ (l.fraction ++ (l.exponent ++ rest))) := by
  have hParts : l.unsigned ++ rest = l.whole ++ (l.fraction ++ (l.exponent ++ rest)) := by
    simp [Lexeme.unsigned]
  rw [← hParts]
  cases hMinus : l.minus with
  | true => simp [Lexeme.chars, hMinus, minusPart]
  | false =>
      obtain ⟨c, others, hCons, hDigit⟩ := l.exists_unsigned_eq
      have hc : c ≠ '-' := Numeral.ne_of_isDecimalDigit hDigit rfl
      simp [Lexeme.chars, hMinus, hCons, minusPart, hc]

/-- Behind the fraction stands neither a digit nor a point. -/
theorem head?_exponent_append (l : Lexeme) {rest : List Char} (hRest : EndsNumber rest) :
    ∀ c ∈ (l.exponent ++ rest).head?, isDecimalDigit c = false ∧ c ≠ '.' := by
  intro c hc
  cases hEmpty : l.exponent with
  | nil =>
      rw [hEmpty, List.nil_append] at hc
      exact ⟨(hRest c hc).1, (hRest c hc).2.1⟩
  | cons d others =>
      rw [hEmpty, List.cons_append, List.head?_cons, Option.mem_some_iff] at hc
      subst hc
      have hNumber := Lexeme.head?_not_digit .absent l.isExponent
      rw [hEmpty] at hNumber
      refine ⟨hNumber d rfl, ?_⟩
      intro hPoint
      exact l.exponent_ne_point others (hPoint ▸ hEmpty)

/-- Behind the whole part stands no digit. -/
theorem head?_fraction_append (l : Lexeme) {rest : List Char} (hRest : EndsNumber rest) :
    ∀ c ∈ (l.fraction ++ (l.exponent ++ rest)).head?, isDecimalDigit c = false := by
  intro c hc
  cases hEmpty : l.fraction with
  | nil =>
      rw [hEmpty, List.nil_append] at hc
      exact (head?_exponent_append l hRest c hc).1
  | cons d others =>
      rw [hEmpty, List.cons_append, List.head?_cons, Option.mem_some_iff] at hc
      subst hc
      have hNumber := Lexeme.head?_not_digit l.isFraction l.isExponent
      rw [hEmpty] at hNumber
      exact hNumber d rfl

/-- A lexeme is read as far as it goes, and as an integer if it is one. -/
theorem readNumber_append (l : Lexeme) {rest : List Char} (hRest : EndsNumber rest) :
    readNumber (l.chars ++ rest) =
      if l.fraction.isEmpty && l.exponent.isEmpty then
        match Numeral.readInteger 10 l.text with
        | .ok n => .ok (.integer n, rest)
        | .error e => .error (.numeral e)
      else
        match Numeral.readFloat l.text with
        | .ok x => .ok (.float x, rest)
        | .error e => .error (.numeral e) := by
  have hWhole := wholeDigits_append l.isWhole (head?_fraction_append l hRest)
  have hFraction := fractionPart_append l.isFraction (head?_exponent_append l hRest)
  have hExponent := exponentPart_append l.isExponent hRest
  have hEmpty : l.whole.isEmpty = false := by simpa using l.isWhole.nonempty
  have hText : String.ofList ((if l.minus then ['-'] else []) ++ l.whole ++ l.fraction ++
      l.exponent) = l.text := by
    simp [Lexeme.text, Lexeme.chars, Lexeme.unsigned]
  simp only [readNumber, minusPart_chars, hWhole, hFraction, hExponent, hEmpty, hText,
    Bool.false_eq_true, if_false]
  split
  · cases Numeral.readInteger 10 l.text with
    | ok n => rfl
    | error e => rfl
  · cases Numeral.readFloat l.text with
    | ok x => rfl
    | error e => rfl

/-- An integer as it is written. -/
def integerLexeme (n : Int) : Lexeme where
  minus := decide (n < 0)
  whole := Nat.toDigits 10 n.natAbs
  fraction := []
  exponent := []
  isWhole := Numeral.isWhole_toDigits n.natAbs
  isFraction := .absent
  isExponent := .absent

theorem integerLexeme_chars (n : Int) : (integerLexeme n).chars = (toString n).toList := by
  by_cases hNegative : n < 0
  · have hAbs : (-n).toNat = n.natAbs := by omega
    simp [integerLexeme, Lexeme.chars, Lexeme.unsigned, Int.repr_eq_if, hNegative, hAbs,
      not_le.mpr hNegative]
  · have hAbs : n.toNat = n.natAbs := by omega
    simp [integerLexeme, Lexeme.chars, Lexeme.unsigned, Int.repr_eq_if, hNegative, hAbs,
      not_lt.mp hNegative]

/-- An integer is read back from its digits, if they are not too many. -/
theorem readNumber_integer {n : Int}
    (h : (Nat.toDigits 10 n.natAbs).length ≤ maxIntegerDigits) {rest : List Char}
    (hRest : EndsNumber rest) :
    readNumber ((integerLexeme n).chars ++ rest) = .ok (.integer n, rest) := by
  have hLength : ¬maxIntegerDigits < (integerLexeme n).whole.length := not_lt.mpr h
  have hDigits : (integerLexeme n).digits = n.natAbs := by
    simp [integerLexeme, Lexeme.digits, Numeral.decimalNumber_toDigits]
  have hParts : ((integerLexeme n).fraction.isEmpty && (integerLexeme n).exponent.isEmpty) = true :=
    rfl
  have hValue : (if (integerLexeme n).minus = true then -(n.natAbs : Int) else n.natAbs) = n := by
    by_cases hNegative : n < 0
    · simp only [integerLexeme, hNegative, decide_true, if_true]
      omega
    · simp only [integerLexeme, hNegative, decide_false, Bool.false_eq_true, if_false]
      omega
  rw [readNumber_append _ hRest, if_pos hParts, (integerLexeme n).readInteger_text ⟨rfl, rfl⟩,
    if_neg hLength, hDigits]
  simp only [hValue]

/-- A number that is no integer is read as a double. -/
theorem readNumber_float {l : Lexeme} (hInteger : ¬l.IsInteger) {rest : List Char}
    (hRest : EndsNumber rest) :
    readNumber (l.chars ++ rest) =
      .ok (.float (.ofDecimal l.minus l.digits l.scale), rest) := by
  have hParts : (l.fraction.isEmpty && l.exponent.isEmpty) = false := by
    rw [← Bool.not_eq_true, Bool.and_eq_true, List.isEmpty_iff, List.isEmpty_iff]
    exact hInteger
  rw [readNumber_append l hRest, hParts, l.readFloat_text]
  rfl

/-- A number begins with a minus and a digit, or with a digit. -/
theorem chars_cases (l : Lexeme) : ∃ d rest, isDecimalDigit d = true ∧
    (l.chars = d :: rest ∨ l.chars = '-' :: d :: rest) := by
  obtain ⟨d, rest, hUnsigned, hDigit⟩ := l.exists_unsigned_eq
  refine ⟨d, rest, hDigit, ?_⟩
  cases hMinus : l.minus with
  | true => simp [Lexeme.chars, hMinus, hUnsigned]
  | false => simp [Lexeme.chars, hMinus, hUnsigned]

/-- A number is none of the words. -/
theorem readAtom_chars (l : Lexeme) (rest : List Char) :
    readAtom (l.chars ++ rest) = readNumber (l.chars ++ rest) := by
  obtain ⟨d, others, hDigit, hChars⟩ := chars_cases l
  have hOther {c : Char} (hc : isDecimalDigit c = false) : c ≠ d :=
    (Numeral.ne_of_isDecimalDigit hDigit hc).symm
  have hn : 'n' ≠ d := hOther rfl
  have ht : 't' ≠ d := hOther rfl
  have hf : 'f' ≠ d := hOther rfl
  have hN : 'N' ≠ d := hOther rfl
  have hI : 'I' ≠ d := hOther rfl
  have hm : '-' ≠ d := hOther rfl
  rcases hChars with hChars | hChars
  · simp [readAtom, hChars, afterWord?, hn, ht, hf, hN, hI, hm]
  · simp [readAtom, hChars, afterWord?, hI]

end SchemaModels.Json
