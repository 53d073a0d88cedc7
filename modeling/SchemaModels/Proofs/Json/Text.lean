import SchemaModels.Json.Reader
import SchemaModels.Json.Writer
import SchemaModels.Proofs.Text.Character
import SchemaModels.Proofs.Text.CodePoint

/-!
Texts in JSON. Every character reads back from the way it is written: as itself,
behind a backslash, or by one or two UTF-16 units in hexadecimal digits. So does a
surrogate, unless it begins a pair that the next one ends.
-/
namespace SchemaModels

namespace Json

open Text (doubleQuote hexDigits not_surrogate)

@[simp] theorem word?_ofString (s : String) : (Json.text (CodeText.ofString s)).word? = some s :=
  CodeText.string?_ofString s

@[simp] theorem named?_self (name : String) (value : Json CodeText)
    (rest : List (CodeText × Json CodeText)) :
    named? ((CodeText.ofString name, value) :: rest) name = some value := by
  rw [named?, List.lookup_cons_self]

theorem readUnit_hexDigits {unit : Nat} (h : unit < 65536) (rest : List Char) :
    readUnit (hexDigits 4 unit ++ rest) = .ok (unit, rest) := by
  have hNumber := @Text.hexNumber?_hexDigits 4 unit h
  rw [Text.hexDigits_four] at hNumber ⊢
  simp only [List.cons_append, List.nil_append, readUnit, hNumber]

theorem nextLow?_unitEscape {unit : Nat} (h : unit < 65536) (rest : List Char) :
    nextLow? (unitEscape unit ++ rest) =
      if 0xdc00 ≤ unit && unit < 0xe000 then some (unit, rest) else none := by
  simp only [unitEscape, List.cons_append, List.nil_append, nextLow?, readUnit_hexDigits h]

theorem ofUnit_toNat (c : Char) : CodePoint.ofUnit c.toNat = .char c := by
  have hSurrogate := not_surrogate c
  rw [CodePoint.ofUnit, dif_neg (by omega), Char.ofNat_toNat]

/-- A unit that is no surrogate is a character. -/
theorem joinUnits_of_small {c : Char} (rest : List Char) :
    joinUnits c.toNat rest = (.char c, rest) := by
  have hSurrogate := not_surrogate c
  rw [joinUnits, if_neg (by simp; omega), ofUnit_toNat]

/-- Two surrogates are the character whose units they are. -/
theorem joinUnits_surrogates {c : Char} (h : 0x10000 ≤ c.toNat) (rest : List Char) :
    joinUnits (0xd800 + (c.toNat - 0x10000) / 0x400)
        (unitEscape (0xdc00 + (c.toNat - 0x10000) % 0x400) ++ rest) = (.char c, rest) := by
  have hSurrogate := not_surrogate c
  have hLow : 0xdc00 + (c.toNat - 0x10000) % 0x400 < 65536 := by omega
  have hJoined : 0x10000 + (0xd800 + (c.toNat - 0x10000) / 0x400 - 0xd800) * 0x400 +
      (0xdc00 + (c.toNat - 0x10000) % 0x400 - 0xdc00) = c.toNat := by omega
  have hHighRange : (decide (0xd800 ≤ 0xd800 + (c.toNat - 0x10000) / 0x400) &&
      decide (0xd800 + (c.toNat - 0x10000) / 0x400 < 0xdc00)) = true := by simp; omega
  have hLowRange : (decide (0xdc00 ≤ 0xdc00 + (c.toNat - 0x10000) % 0x400) &&
      decide (0xdc00 + (c.toNat - 0x10000) % 0x400 < 0xe000)) = true := by simp; omega
  rw [joinUnits, if_pos hHighRange, nextLow?_unitEscape hLow, if_pos hLowRange]
  simp only [hJoined, Char.ofNat_toNat]

/-- A surrogate stays alone, unless it begins a pair that is ended. -/
theorem joinUnits_alone {s : Surrogate} {rest : List Char}
    (h : s.code < 0xdc00 → nextLow? rest = none) :
    joinUnits s.code rest = (.surrogate s, rest) := by
  have hUnit : CodePoint.ofUnit s.code = .surrogate s := dif_pos s.inRange
  unfold joinUnits
  split
  · rename_i hHigh
    rw [h (by simpa using (Bool.and_eq_true_iff.mp hHigh).2), hUnit]
  · rw [hUnit]

/-- What a backslash and a letter leave to read. -/
theorem readText_letter {fuel : Nat} {letter c : Char} (hLetter : letter ≠ 'u')
    (h : escaped? letter = some c) (tail : List Char) :
    readText (fuel + 1) ('\\' :: letter :: tail) =
      (readText fuel tail).map fun read => (.char c :: read.1, read.2) := by
  have hQuote : ('\\' : Char) ≠ doubleQuote := by decide
  simp only [readText, hQuote, if_false, if_true, h]
  cases readText fuel tail with
  | ok read => rfl
  | error e => rfl

/-- What a unit leaves to read, with the unit that may belong to it. -/
theorem readText_unit {fuel unit : Nat} (h : unit < 65536) {p : CodePoint}
    {more tail : List Char} (hJoin : joinUnits unit (more ++ tail) = (p, tail)) :
    readText (fuel + 1) (unitEscape unit ++ (more ++ tail)) =
      (readText fuel tail).map fun read => (p :: read.1, read.2) := by
  have hQuote : ('\\' : Char) ≠ doubleQuote := by decide
  have hRead := readUnit_hexDigits h (more ++ tail)
  simp only [unitEscape, List.cons_append, List.nil_append, readText, hQuote, if_false, if_true,
    hRead, Bind.bind, Except.bind, hJoin]
  cases readText fuel tail with
  | ok read => rfl
  | error e => rfl

/-- The three ways to write a character: behind a backslash, as itself, or by its units. -/
theorem writeChar_cases (c : Char) :
    (∃ letter ∈ [doubleQuote, '\\', 'b', 'f', 'n', 'r', 't'],
      escaped? letter = some c ∧ writeChar c = ['\\', letter]) ∨
    (32 ≤ c.toNat ∧ c.toNat < 127 ∧ c ≠ doubleQuote ∧ c ≠ '\\' ∧ writeChar c = [c]) ∨
    writeChar c = (units c).flatMap unitEscape := by
  have hCode {n : Nat} (h : c.toNat = n) : c = Char.ofNat n := by rw [← h, Char.ofNat_toNat]
  unfold writeChar
  split
  · rename_i hQuoted
    have hSelf : c = doubleQuote ∨ c = '\\' := by simpa using hQuoted
    rcases hSelf with rfl | rfl
    · exact Or.inl ⟨doubleQuote, by decide, rfl, rfl⟩
    · exact Or.inl ⟨'\\', by decide, rfl, rfl⟩
  rename_i hQuoted
  rw [Bool.or_eq_true, decide_eq_true_iff, decide_eq_true_iff, not_or] at hQuoted
  split
  · rename_i hLine
    exact Or.inl ⟨'n', by decide, hLine ▸ rfl, rfl⟩
  split
  · rename_i hReturn
    exact Or.inl ⟨'r', by decide, hReturn ▸ rfl, rfl⟩
  split
  · rename_i hTab
    exact Or.inl ⟨'t', by decide, hTab ▸ rfl, rfl⟩
  split
  · rename_i hBackspace
    exact Or.inl ⟨'b', by decide, hCode hBackspace ▸ rfl, rfl⟩
  split
  · rename_i hFeed
    exact Or.inl ⟨'f', by decide, hCode hFeed ▸ rfl, rfl⟩
  split
  · rename_i hPrintable
    rw [Bool.and_eq_true, decide_eq_true_iff, decide_eq_true_iff] at hPrintable
    exact Or.inr (Or.inl ⟨hPrintable.1, hPrintable.2, hQuoted.1, hQuoted.2, rfl⟩)
  · exact Or.inr (Or.inr rfl)

/-- A character is read back from the way it is written. -/
theorem readText_writeChar (fuel : Nat) (c : Char) (tail : List Char) :
    readText (fuel + 1) (writeChar c ++ tail) =
      (readText fuel tail).map fun read => (.char c :: read.1, read.2) := by
  obtain ⟨letter, hLetter, hEscaped, hWritten⟩ | ⟨hLow, -, hQuote, hBackslash, hWritten⟩ | hWritten :=
    writeChar_cases c
  · have hUnit : letter ≠ 'u' := by
      rintro rfl
      exact absurd hLetter (by decide)
    rw [hWritten]
    exact readText_letter hUnit hEscaped tail
  · simp only [hWritten, List.cons_append, List.nil_append, readText, hQuote, hBackslash,
      Nat.not_lt.mpr hLow, if_false]
    cases readText fuel tail with
    | ok read => rfl
    | error e => rfl
  · rw [hWritten]
    unfold units
    have hSurrogate := not_surrogate c
    by_cases hSmall : c.toNat < 0x10000
    · have hJoin : joinUnits c.toNat ([] ++ tail) = (.char c, tail) := joinUnits_of_small _
      simp only [hSmall, if_true, List.flatMap_cons, List.flatMap_nil, List.append_assoc]
      exact readText_unit hSmall hJoin
    · have hJoin := joinUnits_surrogates (Nat.not_lt.mp hSmall) tail
      simp only [hSmall, if_false, List.flatMap_cons, List.flatMap_nil, List.append_assoc,
        List.nil_append]
      exact readText_unit (by omega) hJoin

/-- The first unit of a character is no low surrogate. -/
theorem nextLow?_units (c : Char) (tail : List Char) :
    nextLow? ((units c).flatMap unitEscape ++ tail) = none := by
  have hSurrogate := not_surrogate c
  unfold units
  dsimp only
  split
  · rename_i hSmall
    rw [List.flatMap_singleton, nextLow?_unitEscape hSmall, if_neg (by simp; omega)]
  · rw [List.flatMap_cons, List.append_assoc, nextLow?_unitEscape (by omega),
      if_neg (by simp; omega)]

theorem nextLow?_of_ne {chars : List Char} (h : ∀ digits, chars ≠ '\\' :: 'u' :: digits) :
    nextLow? chars = none := by
  unfold nextLow?
  split
  · exact (h _ rfl).elim
  · rfl

/-- No character is written as the end of a pair. -/
theorem nextLow?_writeChar (c : Char) (tail : List Char) :
    nextLow? (writeChar c ++ tail) = none := by
  obtain ⟨letter, hLetter, -, hWritten⟩ | ⟨-, -, -, hBackslash, hWritten⟩ | hWritten :=
    writeChar_cases c
  · rw [hWritten]
    refine nextLow?_of_ne fun digits hStart => ?_
    obtain ⟨rfl, -⟩ := List.cons.inj (List.cons.inj hStart).2
    exact absurd hLetter (by decide)
  · rw [hWritten]
    exact nextLow?_of_ne fun digits hStart => hBackslash (List.cons.inj hStart).1
  · rw [hWritten]
    exact nextLow?_units c tail

/-- Only a low surrogate is written as the end of a pair. -/
theorem nextLow?_writePoint {p : CodePoint} (h : ¬p.IsLow) (tail : List Char) :
    nextLow? (writePoint p ++ tail) = none := by
  cases p with
  | surrogate s =>
      have hHigh : s.code < 0xdc00 := Nat.not_le.mp h
      rw [writePoint, nextLow?_unitEscape (by omega), if_neg (by simp; omega)]
  | char c => exact nextLow?_writeChar c tail

/-- A code point is read back from the way it is written, if it does not begin a pair that
what follows ends. -/
theorem readText_writePoint (fuel : Nat) {p : CodePoint} {tail : List Char}
    (h : p.IsHigh → nextLow? tail = none) : readText (fuel + 1) (writePoint p ++ tail) =
      (readText fuel tail).map fun read => (p :: read.1, read.2) := by
  cases p with
  | char c => exact readText_writeChar fuel c tail
  | surrogate s =>
      have hJoin : joinUnits s.code ([] ++ tail) = (.surrogate s, tail) := joinUnits_alone h
      have hRange := s.inRange
      exact readText_unit (by omega) hJoin

/-- The code points of a text are read back up to its closing quote. -/
theorem readText_flatMap {points : CodeText} (hJoined : points.IsJoined) (rest : List Char)
    {fuel : Nat} (h : points.length < fuel) :
    readText fuel (points.flatMap writePoint ++ doubleQuote :: rest) = .ok (points, rest) := by
  induction points generalizing fuel with
  | nil =>
      obtain ⟨n, rfl⟩ : ∃ n, fuel = n + 1 := ⟨fuel - 1, by simp at h; omega⟩
      rfl
  | cons p points ih =>
      obtain ⟨n, rfl⟩ : ∃ n, fuel = n + 1 := ⟨fuel - 1, by simp at h; omega⟩
      obtain ⟨hNext, hRest⟩ := CodeText.isJoined_cons_iff.mp hJoined
      have hAlone : p.IsHigh →
          nextLow? (points.flatMap writePoint ++ doubleQuote :: rest) = none := by
        intro hHigh
        cases points with
        | nil => rfl
        | cons q points =>
            rw [List.flatMap_cons, List.append_assoc]
            exact nextLow?_writePoint (hNext q rfl hHigh) _
      rw [List.flatMap_cons, List.append_assoc, readText_writePoint n hAlone,
        ih hRest (by simpa using h)]
      rfl

theorem unitEscape_visible (unit : Nat) : ∀ c ∈ unitEscape unit, Text.IsVisibleAscii c := by
  rw [unitEscape, List.forall_mem_append]
  exact ⟨by simp [Text.IsVisibleAscii], Text.hexDigits_visible 4 unit⟩

/-- What writes a character is ASCII. -/
theorem writeChar_visible (c : Char) : ∀ d ∈ writeChar c, Text.IsVisibleAscii d := by
  obtain ⟨letter, hLetter, -, hWritten⟩ | ⟨hLeast, hMost, -, -, hWritten⟩ | hWritten :=
    writeChar_cases c
  · have hLetters : ∀ d ∈ [doubleQuote, '\\', 'b', 'f', 'n', 'r', 't'], Text.IsVisibleAscii d := by
      simp [Text.IsVisibleAscii, doubleQuote]
    rw [hWritten, List.forall_mem_cons, List.forall_mem_singleton]
    exact ⟨hLetters '\\' (by simp), hLetters letter hLetter⟩
  · rw [hWritten, List.forall_mem_singleton]
    exact ⟨hLeast, hMost⟩
  · rw [hWritten, List.forall_mem_flatMap]
    exact fun unit _ => unitEscape_visible unit

theorem writePoint_visible (p : CodePoint) : ∀ d ∈ writePoint p, Text.IsVisibleAscii d := by
  cases p with
  | char c => exact writeChar_visible c
  | surrogate s => exact unitEscape_visible s.code

theorem writeChar_ne_nil (c : Char) : writeChar c ≠ [] := by
  obtain ⟨letter, -, -, hWritten⟩ | ⟨-, -, -, -, hWritten⟩ | hWritten := writeChar_cases c
  · exact hWritten ▸ List.cons_ne_nil _ _
  · exact hWritten ▸ List.cons_ne_nil _ _
  · rw [hWritten]
    unfold units
    dsimp only
    split <;> exact List.cons_ne_nil _ _

theorem writePoint_ne_nil (p : CodePoint) : writePoint p ≠ [] := by
  cases p with
  | char c => exact writeChar_ne_nil c
  | surrogate s => exact List.cons_ne_nil _ _

/-- Writing makes no text shorter. -/
theorem length_le_flatMap (points : CodeText) :
    points.length ≤ (points.flatMap writePoint).length := by
  induction points with
  | nil => simp
  | cons p points ih =>
      have hPositive := List.length_pos_iff.mpr (writePoint_ne_nil p)
      rw [List.flatMap_cons, List.length_append, List.length_cons]
      omega

end Json
end SchemaModels
