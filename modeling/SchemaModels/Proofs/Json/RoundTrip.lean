import SchemaModels.Proofs.Entries
import SchemaModels.Proofs.Json.Number
import SchemaModels.Proofs.Json.Text

/-!
Reading what was written. Every JSON value whose objects have distinct keys, whose
integers have few enough digits and whose surrogates stand alone is read back from its
text, and the text has only visible characters of ASCII.
-/
namespace SchemaModels.Json

open Numeral (isDecimalDigit)
open Text (IsVisibleAscii doubleQuote)

mutual
/-- What can be read back: the keys of each object are distinct, no integer has too many
digits, and no surrogates make a pair. -/
def Writable : Json CodeText → Prop
  | .integer n => (Nat.toDigits 10 n.natAbs).length ≤ maxIntegerDigits
  | .list items => WritableItems items
  | .object members => (members.map Prod.fst).Nodup ∧ WritableMembers members
  | .text s => s.IsJoined
  | .null | .boolean _ | .float _ => True

def WritableItems : List (Json CodeText) → Prop
  | [] => True
  | item :: rest => item.Writable ∧ WritableItems rest

def WritableMembers : List (CodeText × Json CodeText) → Prop
  | [] => True
  | (key, value) :: rest => key.IsJoined ∧ value.Writable ∧ WritableMembers rest
end

theorem writableItems_map {α : Type} {encode : α → Json CodeText} {items : List α}
    (h : ∀ item ∈ items, (encode item).Writable) : WritableItems (items.map encode) := by
  induction items with
  | nil => trivial
  | cons item rest ih =>
      rw [List.forall_mem_cons] at h
      exact ⟨h.1, ih h.2⟩

theorem writeItems_more (item : Json CodeText) {rest : List (Json CodeText)} (h : rest ≠ []) :
    writeItems (item :: rest) = item.write ++ ',' :: writeItems rest := by
  rw [writeItems]
  exact h

theorem writeMembers_more (key : CodeText) (value : Json CodeText)
    {rest : List (CodeText × Json CodeText)} (h : rest ≠ []) : writeMembers ((key, value) :: rest) =
      writeText key ++ ':' :: (value.write ++ ',' :: writeMembers rest) := by
  rw [writeMembers]
  · simp
  · exact h

/-- The first character of a written value is neither a blank nor a closing
bracket. -/
def Opens (chars : List Char) : Prop :=
  ∃ c rest, chars = c :: rest ∧ isBlank c = false ∧ c ≠ ']' ∧ c ≠ '}'

theorem Opens.append {chars : List Char} (h : Opens chars) (tail : List Char) :
    Opens (chars ++ tail) := by
  obtain ⟨c, rest, rfl, hFirst⟩ := h
  exact ⟨c, rest ++ tail, rfl, hFirst⟩

theorem opens_chars (l : Lexeme) : Opens l.chars := by
  obtain ⟨d, rest, hDigit, hChars⟩ := chars_cases l
  have hOther {c : Char} (hc : isDecimalDigit c = false) : d ≠ c :=
    Numeral.ne_of_isDecimalDigit hDigit hc
  have hBlank : isBlank d = false := by
    simp only [isBlank, Bool.or_eq_false_iff, beq_eq_false_iff_ne]
    exact ⟨⟨⟨hOther rfl, hOther rfl⟩, hOther rfl⟩, hOther rfl⟩
  rcases hChars with hChars | hChars
  · exact ⟨d, rest, hChars, hBlank, hOther rfl, hOther rfl⟩
  · exact ⟨'-', d :: rest, hChars, rfl, by decide, by decide⟩

theorem exists_float_chars (x : Binary64) :
    (∃ l : Lexeme, write (.float x) = l.chars ∧ ¬l.IsInteger ∧
      .ofDecimal l.minus l.digits l.scale = x) ∨
    (x = .notANumber ∧ write (.float x) = "NaN".toList) ∨
    (x = .infinite false ∧ write (.float x) = "Infinity".toList) ∨
    (x = .infinite true ∧ write (.float x) = "-Infinity".toList) := by
  cases x with
  | notANumber => exact Or.inr (Or.inl ⟨rfl, rfl⟩)
  | infinite negative =>
      cases negative with
      | false => exact Or.inr (Or.inr (Or.inl ⟨rfl, rfl⟩))
      | true => exact Or.inr (Or.inr (Or.inr ⟨rfl, rfl⟩))
  | finite negative mantissa exponent hCanonical =>
      obtain ⟨l, hText, hInteger, hValue⟩ := Binary64.exists_lexeme .artifact negative hCanonical
      refine Or.inl ⟨l, ?_, hInteger, hValue⟩
      rw [write, ← hText]
      exact String.toList_ofList

theorem opens_write (json : Json CodeText) : Opens json.write := by
  cases json with
  | null => exact ⟨'n', _, rfl, rfl, by decide, by decide⟩
  | boolean b =>
      cases b with
      | true => exact ⟨'t', _, rfl, rfl, by decide, by decide⟩
      | false => exact ⟨'f', _, rfl, rfl, by decide, by decide⟩
  | integer n =>
      rw [write, ← integerLexeme_chars]
      exact opens_chars _
  | float x =>
      rcases exists_float_chars x with ⟨l, hText, -, -⟩ | ⟨-, hText⟩ | ⟨-, hText⟩ | ⟨-, hText⟩
      · rw [hText]
        exact opens_chars l
      · exact hText ▸ ⟨'N', _, rfl, rfl, by decide, by decide⟩
      · exact hText ▸ ⟨'I', _, rfl, rfl, by decide, by decide⟩
      · exact hText ▸ ⟨'-', _, rfl, rfl, by decide, by decide⟩
  | text s => exact ⟨doubleQuote, _, rfl, rfl, by decide, by decide⟩
  | list items => exact ⟨'[', _, rfl, rfl, by decide, by decide⟩
  | object members => exact ⟨'{', _, rfl, rfl, by decide, by decide⟩

theorem opens_writeItems {items : List (Json CodeText)} (h : items ≠ []) :
    Opens (writeItems items) := by
  match items, h with
  | [item], _ => exact opens_write item
  | item :: next :: rest, _ => exact (opens_write item).append _

theorem opens_writeMembers {members : List (CodeText × Json CodeText)} (h : members ≠ []) :
    Opens (writeMembers members) := by
  match members, h with
  | [(key, value)], _ => exact ⟨doubleQuote, _, rfl, rfl, by decide, by decide⟩
  | (key, value) :: next :: rest, _ => exact ⟨doubleQuote, _, rfl, rfl, by decide, by decide⟩

theorem Opens.skipBlanks_eq {chars : List Char} (h : Opens chars) : skipBlanks chars = chars := by
  obtain ⟨c, rest, rfl, hBlank, -⟩ := h
  simp [skipBlanks, hBlank]

/-- What begins with none of the brackets and quotes is read as an atom. -/
theorem readValue_atom {c : Char} (hList : c ≠ '[') (hObject : c ≠ '{') (hText : c ≠ doubleQuote)
    (fuel : Nat) (rest : List Char) : readValue (fuel + 1) (c :: rest) = readAtom (c :: rest) := by
  rw [readValue, if_neg hText]
  · exact hList
  · exact hObject

theorem readValue_chars (l : Lexeme) (fuel : Nat) (rest : List Char) :
    readValue (fuel + 1) (l.chars ++ rest) = readNumber (l.chars ++ rest) := by
  obtain ⟨d, others, hDigit, hChars⟩ := chars_cases l
  have hOther {c : Char} (hc : isDecimalDigit c = false) : d ≠ c :=
    Numeral.ne_of_isDecimalDigit hDigit hc
  rw [← readAtom_chars]
  rcases hChars with hChars | hChars
  · rw [hChars]
    exact readValue_atom (hOther rfl) (hOther rfl) (hOther rfl) fuel _
  · rw [hChars]
    exact readValue_atom (by decide) (by decide) (by decide) fuel _

theorem readValue_float (x : Binary64) (fuel : Nat) {rest : List Char} (hRest : EndsNumber rest) :
    readValue (fuel + 1) (write (.float x) ++ rest) = .ok (.float x, rest) := by
  rcases exists_float_chars x with
    ⟨l, hText, hInteger, hValue⟩ | ⟨rfl, hText⟩ | ⟨rfl, hText⟩ | ⟨rfl, hText⟩
  · rw [hText, readValue_chars, readNumber_float hInteger hRest, hValue]
  · rfl
  · rfl
  · rfl

theorem writeText_append (s : CodeText) (tail : List Char) :
    writeText s ++ tail = doubleQuote :: (s.flatMap writePoint ++ doubleQuote :: tail) := by
  simp [writeText]

/-- A written text has its quotes and a character or more for each code point. -/
theorem length_writeText (s : CodeText) : s.length + 2 ≤ (writeText s).length := by
  have hLength := length_le_flatMap s
  rw [writeText, List.length_append, List.length_cons, List.length_singleton]
  omega

theorem readValue_text {s : CodeText} (hJoined : s.IsJoined) {fuel : Nat}
    (hFuel : s.length < fuel) (rest : List Char) :
    readValue (fuel + 1) (writeText s ++ rest) = .ok (.text s, rest) := by
  rw [writeText_append, readValue, if_pos rfl, readText_flatMap hJoined rest hFuel]
  · rfl
  · decide
  · decide

section

variable {fuel : Nat} {chars more rest : List Char}

theorem readValue_list {items : List (Json CodeText)} (hOpens : Opens chars)
    (h : readItems fuel chars = .ok (items, rest)) :
    readValue (fuel + 1) ('[' :: chars) = .ok (.list items, rest) := by
  have hSkip := hOpens.skipBlanks_eq
  obtain ⟨c, others, rfl, -, hClose, -⟩ := hOpens
  simp only [readValue, hSkip]
  split
  · rename_i hCons
    exact (hClose (List.cons.inj hCons).1).elim
  · rw [h]
    rfl

theorem readValue_object {members : List (CodeText × Json CodeText)} (hOpens : Opens chars)
    (h : readMembers fuel chars = .ok (members, rest)) (hKeys : (members.map Prod.fst).Nodup) :
    readValue (fuel + 1) ('{' :: chars) = .ok (.object members, rest) := by
  have hSkip := hOpens.skipBlanks_eq
  obtain ⟨c, others, rfl, -, -, hClose⟩ := hOpens
  simp only [readValue, hSkip]
  split
  · rename_i hCons
    exact (hClose (List.cons.inj hCons).1).elim
  · rw [h, Except.map, Entries.ofPairs_of_nodup hKeys]

theorem readItems_last {item : Json CodeText} (h : readValue fuel chars = .ok (item, ']' :: rest)) :
    readItems (fuel + 1) chars = .ok ([item], rest) := by
  rw [readItems, h]
  rfl

theorem readItems_more {item : Json CodeText} {items : List (Json CodeText)}
    (h : readValue fuel chars = .ok (item, ',' :: more))
    (hMore : readItems fuel (skipBlanks more) = .ok (items, rest)) :
    readItems (fuel + 1) chars = .ok (item :: items, rest) := by
  have hSkip : skipBlanks (',' :: more) = ',' :: more := rfl
  simp only [readItems, h, Bind.bind, Except.bind, hSkip, hMore]
  rfl

variable {key : CodeText} {value : Json CodeText} {members : List (CodeText × Json CodeText)}

theorem readMembers_last (hJoined : key.IsJoined) (hKey : key.length < fuel)
    (h : readValue fuel (skipBlanks chars) = .ok (value, '}' :: rest)) :
    readMembers (fuel + 1) (writeText key ++ ':' :: chars) = .ok ([(key, value)], rest) := by
  have hRead := readText_flatMap hJoined (':' :: chars) hKey
  have hColon : skipBlanks (':' :: chars) = ':' :: chars := rfl
  have hSkip : skipBlanks ('}' :: rest) = '}' :: rest := rfl
  simp only [writeText_append, readMembers, ne_eq, not_true_eq_false, if_false, hRead, Bind.bind,
    Except.bind, hColon, h, hSkip]
  rfl

theorem readMembers_more (hJoined : key.IsJoined) (hKey : key.length < fuel)
    (h : readValue fuel (skipBlanks chars) = .ok (value, ',' :: more))
    (hMore : readMembers fuel (skipBlanks more) = .ok (members, rest)) :
    readMembers (fuel + 1) (writeText key ++ ':' :: chars) =
      .ok ((key, value) :: members, rest) := by
  have hRead := readText_flatMap hJoined (':' :: chars) hKey
  have hColon : skipBlanks (':' :: chars) = ':' :: chars := rfl
  have hSkip : skipBlanks (',' :: more) = ',' :: more := rfl
  simp only [writeText_append, readMembers, ne_eq, not_true_eq_false, if_false, hRead, Bind.bind,
    Except.bind, hColon, h, hSkip, hMore]
  rfl

end

theorem endsNumber_cons {c : Char} (h : isDecimalDigit c = false ∧ c ≠ '.' ∧ c ≠ 'e' ∧ c ≠ 'E')
    (rest : List Char) : EndsNumber (c :: rest) := by
  intro d hd
  obtain rfl : c = d := by simpa using hd
  exact h

mutual
/-- A value is read back from the way it is written. Its characters are fuel
enough: every call on a part leaves at least one of them behind. -/
theorem readValue_write {json : Json CodeText} (hWritable : json.Writable) {fuel : Nat}
    (hFuel : json.write.length ≤ fuel) {rest : List Char} (hRest : EndsNumber rest) :
    readValue fuel (json.write ++ rest) = .ok (json, rest) := by
  obtain ⟨n, rfl⟩ : ∃ n, fuel = n + 1 := by
    obtain ⟨c, others, hOpens, -⟩ := opens_write json
    rw [hOpens, List.length_cons] at hFuel
    exact ⟨fuel - 1, by omega⟩
  cases json with
  | null => rfl
  | boolean b =>
      cases b with
      | true => rfl
      | false => rfl
  | integer k =>
      rw [Writable] at hWritable
      rw [write, ← integerLexeme_chars, readValue_chars]
      exact readNumber_integer hWritable hRest
  | float x => exact readValue_float x n hRest
  | text s =>
      have hLength := length_writeText s
      rw [Writable] at hWritable
      rw [write] at hFuel
      exact readValue_text hWritable (by omega) rest
  | list items =>
      rw [Writable] at hWritable
      rw [write, List.length_append, List.length_cons, List.length_singleton] at hFuel
      rw [write, List.append_assoc, List.cons_append]
      cases items with
      | nil => rfl
      | cons item others =>
          have hItems := opens_writeItems (List.cons_ne_nil item others)
          exact readValue_list (hItems.append _)
            (readItems_write (List.cons_ne_nil item others) hWritable (by omega) rest)
  | object members =>
      rw [Writable] at hWritable
      rw [write, List.length_append, List.length_cons, List.length_singleton] at hFuel
      rw [write, List.append_assoc, List.cons_append]
      cases members with
      | nil => rfl
      | cons member others =>
          have hMembers := opens_writeMembers (List.cons_ne_nil member others)
          exact readValue_object (hMembers.append _)
            (readMembers_write (List.cons_ne_nil member others) hWritable.2 (by omega) rest)
            hWritable.1

theorem readItems_write {items : List (Json CodeText)} (hItems : items ≠ [])
    (hWritable : WritableItems items) {fuel : Nat} (hFuel : (writeItems items).length < fuel)
    (rest : List Char) :
    readItems fuel (writeItems items ++ ']' :: rest) = .ok (items, rest) := by
  obtain ⟨n, rfl⟩ : ∃ n, fuel = n + 1 := ⟨fuel - 1, by omega⟩
  cases items with
  | nil => exact (hItems rfl).elim
  | cons item others =>
      rw [WritableItems] at hWritable
      cases others with
      | nil =>
          rw [writeItems] at hFuel ⊢
          exact readItems_last (readValue_write hWritable.1 (by omega)
            (endsNumber_cons (by decide) rest))
      | cons next more =>
          have hMore := writeItems_more item (List.cons_ne_nil next more)
          rw [hMore, List.length_append, List.length_cons] at hFuel
          rw [hMore, List.append_assoc, List.cons_append]
          refine readItems_more (readValue_write hWritable.1 (by omega)
            (endsNumber_cons (by decide) _)) ?_
          rw [((opens_writeItems (List.cons_ne_nil next more)).append _).skipBlanks_eq]
          exact readItems_write (List.cons_ne_nil next more) hWritable.2 (by omega) rest

theorem readMembers_write {members : List (CodeText × Json CodeText)} (hMembers : members ≠ [])
    (hWritable : WritableMembers members) {fuel : Nat}
    (hFuel : (writeMembers members).length < fuel) (rest : List Char) :
    readMembers fuel (writeMembers members ++ '}' :: rest) = .ok (members, rest) := by
  obtain ⟨n, rfl⟩ : ∃ n, fuel = n + 1 := ⟨fuel - 1, by omega⟩
  cases members with
  | nil => exact (hMembers rfl).elim
  | cons member others =>
      have hKey := length_writeText member.1
      rw [WritableMembers] at hWritable
      cases others with
      | nil =>
          have hLast : writeMembers [member] = writeText member.1 ++ ':' :: member.2.write := by
            rw [writeMembers]
          rw [hLast, List.length_append, List.length_cons] at hFuel
          rw [hLast, List.append_assoc, List.cons_append]
          refine readMembers_last hWritable.1 (by omega) ?_
          rw [((opens_write member.2).append _).skipBlanks_eq]
          exact readValue_write hWritable.2.1 (by omega) (endsNumber_cons (by decide) rest)
      | cons next more =>
          have hMore := writeMembers_more member.1 member.2 (List.cons_ne_nil next more)
          simp only [hMore, List.length_append, List.length_cons] at hFuel
          simp only [hMore, List.append_assoc, List.cons_append]
          have hEnd : EndsNumber (',' :: (writeMembers (next :: more) ++ '}' :: rest)) :=
            endsNumber_cons (by decide) _
          have hValue := readValue_write hWritable.2.1 (by omega : member.2.write.length ≤ n) hEnd
          rw [← ((opens_write member.2).append _).skipBlanks_eq] at hValue
          refine readMembers_more hWritable.1 (by omega) hValue ?_
          rw [((opens_writeMembers (List.cons_ne_nil next more)).append _).skipBlanks_eq]
          exact readMembers_write (List.cons_ne_nil next more) hWritable.2.2 (by omega) rest
end

/-- Writing and then reading gives the value back. -/
theorem read_render {json : Json CodeText} (h : json.Writable) : read json.render = .ok json := by
  have hSkip := (opens_write json).skipBlanks_eq
  have hEnd : EndsNumber [] := by
    intro c hc
    cases hc
  have hRead := readValue_write h (Nat.le_succ json.write.length) hEnd
  rw [List.append_nil] at hRead
  simp only [read, render, String.toList_ofList, hSkip, hRead]
  rfl

theorem writeText_visible (s : CodeText) : ∀ c ∈ writeText s, IsVisibleAscii c := by
  rw [writeText, List.cons_append, List.forall_mem_cons, List.forall_mem_append,
    List.forall_mem_flatMap, List.forall_mem_singleton]
  exact ⟨by decide, fun p _ => writePoint_visible p, by decide⟩

theorem chars_visible (l : Lexeme) : ∀ c ∈ l.chars, IsVisibleAscii c := by
  intro c hc
  rcases l.isNumeric_of_mem hc with hDigit | rfl | rfl | rfl | rfl | rfl
  · have hRange := Numeral.isDecimalDigit_iff.mp hDigit
    exact ⟨by omega, by omega⟩
  all_goals decide

mutual
/-- What writes a value is ASCII without line ends. -/
theorem write_visible (json : Json CodeText) : ∀ c ∈ json.write, IsVisibleAscii c := by
  cases json with
  | null => simp [write, IsVisibleAscii]
  | boolean b => cases b <;> simp [write, IsVisibleAscii]
  | integer n =>
      rw [write, ← integerLexeme_chars]
      exact chars_visible _
  | float x =>
      rcases exists_float_chars x with ⟨l, hText, -, -⟩ | ⟨-, hText⟩ | ⟨-, hText⟩ | ⟨-, hText⟩
      · exact hText ▸ chars_visible l
      all_goals simp [hText, IsVisibleAscii]
  | text s => exact writeText_visible s
  | list items =>
      rw [write, List.cons_append, List.forall_mem_cons, List.forall_mem_append,
        List.forall_mem_singleton]
      exact ⟨by decide, writeItems_visible items, by decide⟩
  | object members =>
      rw [write, List.cons_append, List.forall_mem_cons, List.forall_mem_append,
        List.forall_mem_singleton]
      exact ⟨by decide, writeMembers_visible members, by decide⟩

theorem writeItems_visible (items : List (Json CodeText)) :
    ∀ c ∈ writeItems items, IsVisibleAscii c := by
  match items with
  | [] => simp [writeItems]
  | [item] => exact write_visible item
  | item :: next :: rest =>
      rw [writeItems_more item (List.cons_ne_nil next rest), List.forall_mem_append,
        List.forall_mem_cons]
      exact ⟨write_visible item, by decide, writeItems_visible (next :: rest)⟩

theorem writeMembers_visible (members : List (CodeText × Json CodeText)) :
    ∀ c ∈ writeMembers members, IsVisibleAscii c := by
  match members with
  | [] => simp [writeMembers]
  | [(key, value)] =>
      rw [writeMembers, List.forall_mem_append, List.forall_mem_cons]
      exact ⟨writeText_visible key, by decide, write_visible value⟩
  | (key, value) :: next :: rest =>
      rw [writeMembers_more key value (List.cons_ne_nil next rest), List.forall_mem_append,
        List.forall_mem_cons, List.forall_mem_append, List.forall_mem_cons]
      exact ⟨writeText_visible key, by decide, write_visible value, by decide,
        writeMembers_visible (next :: rest)⟩
end

end SchemaModels.Json
