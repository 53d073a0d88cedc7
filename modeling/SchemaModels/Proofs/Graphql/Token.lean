import SchemaModels.Graphql.Lexer
import SchemaModels.Proofs.FirstFailure
import SchemaModels.Proofs.Number.Lexeme

/-!
What the lexer says of the tokens of any text: a name is made of the characters
of names, and a number is a lexeme.
-/
namespace SchemaModels.Graphql

open Lexer
open Numeral (isDecimalDigit)

/-- A character that begins names, and more characters of names. -/
def IsName (value : String) : Prop :=
  ∃ first rest, value.toList = first :: rest ∧ isNameStart first = true ∧
    ∀ c ∈ rest, isNamePart c = true

theorem isName_iff {value : String} : IsName value ↔
    value.toList.head?.any isNameStart = true ∧ value.toList.tail.all isNamePart = true := by
  unfold IsName
  cases value.toList with
  | nil => simp
  | cons c rest => simp [and_comm]

instance (value : String) : Decidable (IsName value) := decidable_of_iff _ isName_iff.symm

/-- An integer as it is written. -/
def IsIntegerLexeme (lexeme : String) : Prop := ∃ l : Lexeme, l.IsInteger ∧ l.text = lexeme

/-- A number as it is written. -/
def IsNumberLexeme (lexeme : String) : Prop := ∃ l : Lexeme, l.text = lexeme

theorem isIntegerLexeme_of_isWhole {chars : List Char} (h : IsWhole chars) :
    IsIntegerLexeme (String.ofList chars) :=
  ⟨⟨false, chars, [], [], h, .absent, .absent⟩, ⟨rfl, rfl⟩, by simp [Lexeme.text, Lexeme.chars,
    Lexeme.unsigned]⟩

/-- What holds of a token wherever it comes from a text. -/
def Token.WellFormed : Token → Prop
  | .name value => IsName value
  | .integer lexeme => IsIntegerLexeme lexeme
  | .float lexeme => IsNumberLexeme lexeme
  | .punctuator _ | .text _ | .blockText _ => True

def Tokens.WellFormed : Tokens → Prop
  | .finished | .broken _ => True
  | .next token rest => token.WellFormed ∧ rest.WellFormed

namespace Lexer

theorem readDigits_ok {chars digits rest : List Char} (h : readDigits chars = .ok (digits, rest)) :
    digits = chars.takeWhile isDecimalDigit ∧ digits ≠ [] := by
  simp only [readDigits] at h
  split at h
  · cases h
  · rename_i hEmpty
    cases h
    exact ⟨rfl, by simpa using hEmpty⟩

theorem digits_of_takeWhile {chars : List Char} :
    ∀ c ∈ chars.takeWhile isDecimalDigit, isDecimalDigit c = true :=
  fun _ hc => List.mem_takeWhile_imp hc

theorem readWhole_isWhole {chars whole rest : List Char}
    (h : readWhole chars = .ok (whole, rest)) : IsWhole whole := by
  have hZero : IsWhole ['0'] := ⟨by simp, by simp [isDecimalDigit], fun _ => rfl⟩
  fun_cases readWhole chars with
  | case1 d after hd => simp [readWhole, hd] at h
  | case2 d after hd =>
      simp only [readWhole, hd, Bool.false_eq_true, if_false] at h
      cases h
      exact hZero
  | case3 =>
      cases h
      exact hZero
  | case4 chars hNoZero =>
      rw [readWhole] at h
      · obtain ⟨rfl, hNonempty⟩ := readDigits_ok h
        refine ⟨hNonempty, digits_of_takeWhile, ?_⟩
        intro hLeading
        cases chars with
        | nil => simp at hLeading
        | cons c after =>
            by_cases hc : isDecimalDigit c = true
            · rw [List.takeWhile_cons_of_pos hc] at hLeading
              cases hLeading
              exact (hNoZero after rfl).elim
            · simp [List.takeWhile_cons_of_neg hc] at hLeading
      · exact hNoZero

/-- What a changed piece was before. -/
theorem mapPiece_ok {α β : Type} {f : α → β} {piece : Piece α} {b : β} {rest : List Char}
    (h : mapPiece f piece = .ok (b, rest)) : ∃ a, piece = .ok (a, rest) ∧ f a = b := by
  cases piece with
  | error e => cases h
  | ok p =>
      cases h
      exact ⟨p.1, rfl, rfl⟩

theorem readFraction_isFraction {chars fraction rest : List Char}
    (h : readFraction chars = .ok (fraction, rest)) : IsFraction fraction := by
  fun_cases readFraction chars with
  | case1 after =>
      obtain ⟨digits, hDigits, rfl⟩ := mapPiece_ok h
      obtain ⟨rfl, hNonempty⟩ := readDigits_ok hDigits
      exact .given hNonempty digits_of_takeWhile
  | case2 chars hPoint =>
      rw [readFraction] at h
      · cases h
        exact .absent
      · exact hPoint

theorem readSign_cases (chars : List Char) :
    (readSign chars).1 = [] ∨ (readSign chars).1 = ['-'] ∨ (readSign chars).1 = ['+'] := by
  fun_cases readSign chars <;> simp

theorem readExponent_isExponent {chars exponent rest : List Char}
    (h : readExponent chars = .ok (exponent, rest)) : IsExponent exponent := by
  fun_cases readExponent chars with
  | case1 =>
      cases h
      exact .absent
  | case2 c after hLetter sign unsigned hSign =>
      simp only [readExponent, hLetter, if_true, hSign] at h
      obtain ⟨digits, hDigits, rfl⟩ := mapPiece_ok h
      obtain ⟨rfl, hNonempty⟩ := readDigits_ok hDigits
      have hCases := readSign_cases after
      rw [hSign] at hCases
      exact .given (by simpa using hLetter) hCases hNonempty digits_of_takeWhile
  | case3 c after hLetter =>
      simp only [readExponent, hLetter] at h
      cases h
      exact .absent

theorem readMinus_cases (chars : List Char) :
    (readMinus chars).1 = ['-'] ∨ (readMinus chars).1 = [] := by
  fun_cases readMinus chars <;> simp

theorem readNumber_wellFormed {chars rest : List Char} {token : Token}
    (h : readNumber chars = .ok (token, rest)) : token.WellFormed := by
  simp only [readNumber, bind_eq_ok_iff, Prod.exists] at h
  obtain ⟨whole, afterWhole, hWhole, fraction, afterFraction, hFraction, exponent, after,
    hExponent, h⟩ := h
  let l : Lexeme := ⟨decide ((readMinus chars).1 = ['-']), whole, fraction, exponent,
    readWhole_isWhole hWhole, readFraction_isFraction hFraction, readExponent_isExponent hExponent⟩
  have hText : String.ofList ((readMinus chars).1 ++ whole ++ fraction ++ exponent) = l.text := by
    rcases readMinus_cases chars with hMinus | hMinus <;>
      simp [l, Lexeme.text, Lexeme.chars, Lexeme.unsigned, hMinus]
  rw [hText] at h
  split at h
  · obtain ⟨_, hThrow, -⟩ := bind_eq_ok_iff.mp h
    cases hThrow
  · cases h
    split
    · rename_i hNone
      rw [Bool.and_eq_true, List.isEmpty_iff, List.isEmpty_iff] at hNone
      exact ⟨l, hNone, rfl⟩
    · exact ⟨l, rfl⟩

/-- Digits without a needless zero are read up to where they end. -/
theorem readWhole_append {whole rest : List Char} (hWhole : IsWhole whole)
    (hRest : ∀ c ∈ rest.head?, isDecimalDigit c = false) :
    readWhole (whole ++ rest) = .ok (whole, rest) := by
  have hDigits : readDigits (whole ++ rest) = .ok (whole, rest) := by
    have hTake := Text.takeWhile_run hWhole.digits hRest
    have hDrop := Text.dropWhile_run hWhole.digits hRest
    have hEmpty : whole.isEmpty = false := by simpa using hWhole.nonempty
    simp [readDigits, hTake, hDrop, hEmpty]
  by_cases hZero : whole.head? = some '0'
  · rw [hWhole.leading hZero]
    cases rest with
    | nil => rfl
    | cons c after =>
        have hc := hRest c rfl
        simp [readWhole, hc]
  · rw [readWhole, hDigits]
    intro after hCons
    cases whole with
    | nil => exact hWhole.nonempty rfl
    | cons c others =>
        obtain ⟨rfl, -⟩ := List.cons.inj hCons
        exact hZero rfl

/-- An integer is read up to a character that neither continues it nor may follow
it. -/
theorem readNumber_integer (l : Lexeme) (hInteger : l.IsInteger) {rest : List Char}
    (hRest : ∀ c ∈ rest.head?, isNamePart c = false ∧ c ≠ '.') :
    readNumber (l.chars ++ rest) = .ok (.integer l.text, rest) := by
  obtain ⟨hFraction, hExponent⟩ := hInteger
  have hUnsigned : l.unsigned = l.whole := by simp [Lexeme.unsigned, hFraction, hExponent]
  have hMinus : readMinus (l.chars ++ rest) = (if l.minus then ['-'] else [], l.whole ++ rest) := by
    cases h : l.minus with
    | true => simp [Lexeme.chars, h, hUnsigned, readMinus]
    | false =>
        obtain ⟨c, others, hCons, hDigit⟩ := l.exists_unsigned_eq
        rw [hUnsigned] at hCons
        have hc : c ≠ '-' := Numeral.ne_of_isDecimalDigit hDigit rfl
        simp [Lexeme.chars, h, hUnsigned, hCons, readMinus, hc]
  have hNext (c : Char) (hc : c ∈ rest.head?) :
      isDecimalDigit c = false ∧ isNameStart c = false := by
    have := (hRest c hc).1
    simp only [isNamePart, Bool.or_eq_false_iff] at this
    exact ⟨this.2, this.1⟩
  have hWhole := readWhole_append l.isWhole fun c hc => (hNext c hc).1
  have hText : l.text = String.ofList ((if l.minus then ['-'] else []) ++ l.whole ++ [] ++ []) := by
    simp [Lexeme.text, Lexeme.chars, hUnsigned]
  have hNoFraction : readFraction rest = .ok ([], rest) := by
    rw [readFraction]
    rintro after rfl
    exact (hRest '.' rfl).2 rfl
  have hNoExponent : readExponent rest = .ok ([], rest) := by
    cases rest with
    | nil => rfl
    | cons c after =>
        have hStart := (hNext c rfl).2
        have hLower : c ≠ 'e' := by rintro rfl; revert hStart; decide
        have hUpper : c ≠ 'E' := by rintro rfl; revert hStart; decide
        simp [readExponent, hLower, hUpper]
  have hFollow : (rest.head?.map fun c => c == '.' || isNameStart c).getD false = false := by
    cases rest with
    | nil => rfl
    | cons c after =>
        have hPoint : (c == '.') = false := by simpa using (hRest c rfl).2
        have hStart := (hNext c rfl).2
        simp [hPoint, hStart]
  simp only [readNumber, hMinus, hWhole, hNoFraction, hNoExponent, Bind.bind, Except.bind, hFollow,
    hText]
  rfl

theorem readQuoted_wellFormed {chars rest : List Char} {token : Token}
    (h : readQuoted chars = .ok (token, rest)) : token.WellFormed := by
  fun_cases readQuoted chars with
  | case1 after =>
      obtain ⟨lines, -, rfl⟩ := mapPiece_ok h
      trivial
  | case2 chars hBlock =>
      rw [readQuoted] at h
      · obtain ⟨text, -, rfl⟩ := mapPiece_ok h
        trivial
      · exact hBlock

theorem readPoints_wellFormed {chars rest : List Char} {token : Token}
    (h : readPoints chars = .ok (token, rest)) : token.WellFormed := by
  unfold readPoints at h
  split at h
  · cases h
    trivial
  · cases h
  · dsimp only at h
    split at h <;> cases h

/-- The kinds of tokens, by the character that begins them. -/
theorem readToken_wellFormed {c : Char} {chars rest : List Char} {token : Token}
    (h : readToken c chars = .ok (token, rest)) : token.WellFormed := by
  unfold readToken at h
  split at h
  · cases h
    trivial
  · split at h
    · exact readQuoted_wellFormed h
    · split at h
      · exact readNumber_wellFormed h
      · split at h
        · rename_i hStart
          cases h
          refine ⟨c, chars.takeWhile isNamePart, String.toList_ofList .., hStart, ?_⟩
          exact fun _ hc => List.mem_takeWhile_imp hc
        · split at h
          · exact readPoints_wellFormed h
          · split at h <;> cases h

end Lexer

/-- The tokens of a text begin with its first token. -/
theorem Tokens.ofChars_next {chars rest after : List Char} {c : Char} {token : Token}
    {tokens : Tokens} (hSkip : skipIgnored false chars = c :: rest)
    (hRead : readToken c rest = .ok (token, after)) (hAfter : Tokens.ofChars after = tokens) :
    Tokens.ofChars chars = .next token tokens := by
  fun_cases Tokens.ofChars chars with
  | case1 hNone => rw [hSkip] at hNone; cases hNone
  | case2 c' rest' hCons e hBroken =>
      rw [hSkip] at hCons
      cases hCons
      rw [hRead] at hBroken
      cases hBroken
  | case3 c' rest' hCons token' after' hToken =>
      rw [hSkip] at hCons
      cases hCons
      rw [hRead] at hToken
      cases hToken
      rw [hAfter]

/-- Every text has well-formed tokens. -/
theorem Tokens.ofChars_wellFormed (chars : List Char) : (Tokens.ofChars chars).WellFormed := by
  fun_induction Tokens.ofChars chars with
  | case1 => trivial
  | case2 => trivial
  | case3 chars c rest hSkip token after hToken ih =>
      exact ⟨Lexer.readToken_wellFormed hToken, ih⟩

end SchemaModels.Graphql
