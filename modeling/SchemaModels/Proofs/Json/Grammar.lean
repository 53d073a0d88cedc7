import SchemaModels.Proofs.Json.RoundTrip

/-!
The grammar of JSON: the texts that every reader of JSON has to accept. A value
is written as a phrase of this grammar if all doubles in it are finite; the
writer has names for the others that the grammar does not have.
-/
namespace SchemaModels.Json

open Text (doubleQuote hexValue?)

/-- One character between double quotes: itself, behind a backslash, or as a
UTF-16 unit in hexadecimal digits. -/
inductive IsPiece : List Char → Prop where
  | plain {c : Char} (hControl : 32 ≤ c.toNat) (hQuote : c ≠ doubleQuote)
      (hBackslash : c ≠ '\\') : IsPiece [c]
  | letter {c : Char} (h : c ∈ [doubleQuote, '\\', '/', 'b', 'f', 'n', 'r', 't']) :
      IsPiece ['\\', c]
  | unit {digits : List Char} (hLength : digits.length = 4)
      (hDigits : ∀ c ∈ digits, (hexValue? c).isSome) : IsPiece ('\\' :: 'u' :: digits)

/-- A text with its quotes. -/
inductive IsQuoted : List Char → Prop where
  | pieces {pieces : List (List Char)} (h : ∀ piece ∈ pieces, IsPiece piece) :
      IsQuoted (doubleQuote :: (pieces.flatten ++ [doubleQuote]))

/-- The sorts of phrases. -/
inductive PhraseSort where
  /-- A value alone. -/
  | value
  /-- A value with blanks around it. -/
  | text
  /-- The items of a list, separated by commas. -/
  | items
  /-- A key, a colon and a value. -/
  | member
  /-- The members of an object, separated by commas. -/
  | members

/-- The phrases of each sort. A comma stands between two items or members and
never behind the last one. -/
inductive Phrase : PhraseSort → List Char → Prop where
  | word {name : String} (h : name ∈ ["null", "true", "false"]) : Phrase .value name.toList
  | number (l : Lexeme) : Phrase .value l.chars
  | quoted {chars : List Char} (h : IsQuoted chars) : Phrase .value chars
  | emptyList {blanks : List Char} (h : ∀ c ∈ blanks, isBlank c) :
      Phrase .value ('[' :: (blanks ++ [']']))
  | list {items : List Char} (h : Phrase .items items) : Phrase .value ('[' :: (items ++ [']']))
  | emptyObject {blanks : List Char} (h : ∀ c ∈ blanks, isBlank c) :
      Phrase .value ('{' :: (blanks ++ ['}']))
  | object {members : List Char} (h : Phrase .members members) :
      Phrase .value ('{' :: (members ++ ['}']))
  | padded {before chars after : List Char} (hBefore : ∀ c ∈ before, isBlank c)
      (h : Phrase .value chars) (hAfter : ∀ c ∈ after, isBlank c) :
      Phrase .text (before ++ (chars ++ after))
  | lastItem {chars : List Char} (h : Phrase .text chars) : Phrase .items chars
  | moreItems {item rest : List Char} (h : Phrase .text item) (hRest : Phrase .items rest) :
      Phrase .items (item ++ ',' :: rest)
  | member {before key after value : List Char} (hBefore : ∀ c ∈ before, isBlank c)
      (hKey : IsQuoted key) (hAfter : ∀ c ∈ after, isBlank c) (h : Phrase .text value) :
      Phrase .member (before ++ (key ++ (after ++ ':' :: value)))
  | lastMember {chars : List Char} (h : Phrase .member chars) : Phrase .members chars
  | moreMembers {first rest : List Char} (h : Phrase .member first)
      (hRest : Phrase .members rest) : Phrase .members (first ++ ',' :: rest)

/-- A JSON text: a value with blanks around it. -/
def IsText (text : String) : Prop := Phrase .text text.toList

/-- A value is a text without any blanks. -/
theorem Phrase.toText {chars : List Char} (h : Phrase .value chars) : Phrase .text chars := by
  have hPadded := padded (List.forall_mem_nil _) h (List.forall_mem_nil _)
  rwa [List.nil_append, List.append_nil] at hPadded

mutual
/-- All doubles in a value are finite. -/
def AllFinite {τ : Type} : Json τ → Prop
  | .float x => x.isFinite = true
  | .list items => AllFiniteItems items
  | .object members => AllFiniteMembers members
  | .null | .boolean _ | .integer _ | .text _ => True

def AllFiniteItems {τ : Type} : List (Json τ) → Prop
  | [] => True
  | item :: rest => item.AllFinite ∧ AllFiniteItems rest

def AllFiniteMembers {τ : Type} : List (τ × Json τ) → Prop
  | [] => True
  | (_, value) :: rest => value.AllFinite ∧ AllFiniteMembers rest
end

theorem hexDigits_isSome {n : Nat} : ∀ c ∈ Text.hexDigits 4 n, (hexValue? c).isSome := by
  have hDigit (m : Nat) : hexValue? (Text.hexDigit (m % 16)) = some (m % 16) :=
    Text.hexValue?_hexDigit (Nat.mod_lt m (by decide))
  simp [Text.hexDigits_four, hDigit]

theorem unitEscape_isPiece (unit : Nat) : IsPiece (unitEscape unit) := by
  refine .unit ?_ hexDigits_isSome
  rw [Text.hexDigits_four]
  rfl

/-- A character is written as one piece, or as two above the first plane. -/
theorem exists_writeChar_pieces (c : Char) :
    ∃ pieces : List (List Char), (∀ piece ∈ pieces, IsPiece piece) ∧
      pieces.flatten = writeChar c := by
  have hOne {piece : List Char} (h : IsPiece piece) :
      ∃ pieces : List (List Char), (∀ p ∈ pieces, IsPiece p) ∧ pieces.flatten = piece :=
    ⟨[piece], by simpa using h, by simp⟩
  obtain ⟨letter, hLetter, -, hWritten⟩ | ⟨hLow, -, hQuote, hBackslash, hWritten⟩ | hWritten :=
    writeChar_cases c
  · have hLetters : ∀ d ∈ [doubleQuote, '\\', 'b', 'f', 'n', 'r', 't'],
        d ∈ [doubleQuote, '\\', '/', 'b', 'f', 'n', 'r', 't'] := by simp
    exact hWritten ▸ hOne (.letter (hLetters letter hLetter))
  · exact hWritten ▸ hOne (.plain hLow hQuote hBackslash)
  · refine ⟨(units c).map unitEscape, ?_, hWritten.symm⟩
    rw [List.forall_mem_map]
    intro unit _
    exact unitEscape_isPiece unit

theorem exists_writePoint_pieces (p : CodePoint) :
    ∃ pieces : List (List Char), (∀ piece ∈ pieces, IsPiece piece) ∧
      pieces.flatten = writePoint p := by
  cases p with
  | char c => exact exists_writeChar_pieces c
  | surrogate s =>
      refine ⟨[unitEscape s.code], ?_, List.flatten_singleton⟩
      exact List.forall_mem_singleton.mpr (unitEscape_isPiece s.code)

theorem exists_flatMap_pieces (points : CodeText) :
    ∃ pieces : List (List Char), (∀ piece ∈ pieces, IsPiece piece) ∧
      pieces.flatten = points.flatMap writePoint := by
  induction points with
  | nil => exact ⟨[], List.forall_mem_nil _, rfl⟩
  | cons p points ih =>
      obtain ⟨first, hFirst, hPoint⟩ := exists_writePoint_pieces p
      obtain ⟨others, hOthers, hRest⟩ := ih
      refine ⟨first ++ others, List.forall_mem_append.mpr ⟨hFirst, hOthers⟩, ?_⟩
      rw [List.flatten_append, hPoint, hRest, List.flatMap_cons]

theorem writeText_isQuoted (s : CodeText) : IsQuoted (writeText s) := by
  obtain ⟨pieces, hPieces, hChars⟩ := exists_flatMap_pieces s
  rw [writeText, ← hChars, List.cons_append]
  exact .pieces hPieces

theorem member_phrase (key : CodeText) {value : Json CodeText} (h : Phrase .value value.write) :
    Phrase .member (writeText key ++ ':' :: value.write) := by
  have hMember := Phrase.member (List.forall_mem_nil _) (writeText_isQuoted key)
    (List.forall_mem_nil _) h.toText
  rwa [List.nil_append, List.nil_append] at hMember

mutual
/-- A value with finite doubles is written as a phrase. -/
theorem write_phrase {json : Json CodeText} (hFinite : json.AllFinite) :
    Phrase .value json.write := by
  cases json with
  | null => exact .word (by decide)
  | boolean b =>
      cases b with
      | true => exact .word (by decide)
      | false => exact .word (by decide)
  | integer n =>
      rw [write, ← integerLexeme_chars]
      exact .number _
  | float x =>
      rw [AllFinite] at hFinite
      rcases exists_float_chars x with ⟨l, hText, -, -⟩ | ⟨rfl, -⟩ | ⟨rfl, -⟩ | ⟨rfl, -⟩
      · rw [hText]
        exact .number l
      all_goals cases hFinite
  | text s => exact .quoted (writeText_isQuoted s)
  | list items =>
      rw [AllFinite] at hFinite
      rw [write, List.cons_append]
      cases items with
      | nil => exact .emptyList (List.forall_mem_nil _)
      | cons item rest => exact .list (writeItems_phrase (List.cons_ne_nil item rest) hFinite)
  | object members =>
      rw [AllFinite] at hFinite
      rw [write, List.cons_append]
      cases members with
      | nil => exact .emptyObject (List.forall_mem_nil _)
      | cons member rest =>
          exact .object (writeMembers_phrase (List.cons_ne_nil member rest) hFinite)

theorem writeItems_phrase {items : List (Json CodeText)} (hItems : items ≠ [])
    (hFinite : AllFiniteItems items) : Phrase .items (writeItems items) := by
  cases items with
  | nil => exact (hItems rfl).elim
  | cons item rest =>
      rw [AllFiniteItems] at hFinite
      have hItem := (write_phrase hFinite.1).toText
      cases rest with
      | nil => exact .lastItem hItem
      | cons next more =>
          rw [writeItems_more item (List.cons_ne_nil next more)]
          exact .moreItems hItem (writeItems_phrase (List.cons_ne_nil next more) hFinite.2)

theorem writeMembers_phrase {members : List (CodeText × Json CodeText)} (hMembers : members ≠ [])
    (hFinite : AllFiniteMembers members) : Phrase .members (writeMembers members) := by
  cases members with
  | nil => exact (hMembers rfl).elim
  | cons member rest =>
      rw [AllFiniteMembers] at hFinite
      have hMember := member_phrase member.1 (write_phrase hFinite.1)
      cases rest with
      | nil =>
          rw [writeMembers]
          exact .lastMember hMember
      | cons next more =>
          have hMore := Phrase.moreMembers hMember
            (writeMembers_phrase (List.cons_ne_nil next more) hFinite.2)
          rw [List.append_assoc, List.cons_append] at hMore
          rw [writeMembers_more member.1 member.2 (List.cons_ne_nil next more)]
          exact hMore
end

end SchemaModels.Json
