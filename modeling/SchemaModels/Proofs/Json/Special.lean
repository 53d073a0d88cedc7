import SchemaModels.Proofs.Json.Grammar

/-!
Which written values are JSON. The names of special numbers begin with letters
that no phrase of the grammar has, except between the quotes of a text, so it is
enough to look at the characters outside texts.
-/
namespace SchemaModels.Json

open Text (doubleQuote hexValue?)

mutual
/-- The characters that do not belong to a text between quotes. -/
def outside : List Char → List Char
  | [] => []
  | c :: rest => if c = doubleQuote then inside rest else c :: outside rest

/-- The same from inside such a text on. -/
def inside : List Char → List Char
  | [] => []
  | '\\' :: _ :: rest => inside rest
  | c :: rest => if c = doubleQuote then outside rest else inside rest
end

/-- Some characters have certain ones of them outside texts, whatever follows:
every text that begins in them also ends in them. -/
def Shows (chars shown : List Char) : Prop :=
  ∀ rest, outside (chars ++ rest) = shown ++ outside rest

theorem Shows.append {chars more shown moreShown : List Char} (h : Shows chars shown)
    (hMore : Shows more moreShown) : Shows (chars ++ more) (shown ++ moreShown) := by
  intro rest
  rw [List.append_assoc, h, hMore, List.append_assoc]

/-- What is shown is determined. -/
theorem Shows.unique {chars shown other : List Char} (h : Shows chars shown)
    (hOther : Shows chars other) : shown = other := by
  have hSame := (h []).symm.trans (hOther [])
  simpa [outside] using hSame

theorem shows_of_forall_ne {chars : List Char} (h : ∀ c ∈ chars, c ≠ doubleQuote) :
    Shows chars chars := by
  intro rest
  induction chars with
  | nil => rfl
  | cons c chars ih =>
      rw [List.forall_mem_cons] at h
      rw [List.cons_append, outside, if_neg h.1, ih h.2, List.cons_append]

theorem inside_cons {c : Char} (hQuote : c ≠ doubleQuote) (hBackslash : c ≠ '\\')
    (rest : List Char) : inside (c :: rest) = inside rest := by
  rw [inside, if_neg hQuote]
  intro d more hCons
  exact absurd hCons hBackslash

theorem inside_append_of_forall {chars : List Char}
    (h : ∀ c ∈ chars, c ≠ doubleQuote ∧ c ≠ '\\') (rest : List Char) :
    inside (chars ++ rest) = inside rest := by
  induction chars with
  | nil => rfl
  | cons c chars ih =>
      rw [List.forall_mem_cons] at h
      rw [List.cons_append, inside_cons h.1.1 h.1.2, ih h.2]

theorem ne_of_hexValue? {c d : Char} (h : (hexValue? c).isSome) (hOther : hexValue? d = none) :
    c ≠ d := by
  rintro rfl
  rw [hOther] at h
  cases h

theorem inside_piece {piece : List Char} (h : IsPiece piece) (rest : List Char) :
    inside (piece ++ rest) = inside rest := by
  cases h with
  | plain _ hQuote hBackslash => exact inside_cons hQuote hBackslash rest
  | letter _ => rfl
  | unit _ hDigits =>
      have hNoEnd : ∀ c ∈ _, c ≠ doubleQuote ∧ c ≠ '\\' := fun c hc =>
        ⟨ne_of_hexValue? (hDigits c hc) (by decide), ne_of_hexValue? (hDigits c hc) (by decide)⟩
      exact inside_append_of_forall hNoEnd rest

/-- Nothing of a text is outside it. -/
theorem shows_quoted {chars : List Char} (h : IsQuoted chars) : Shows chars [] := by
  cases h with
  | @pieces pieces hPieces =>
      intro rest
      have hInside : inside (pieces.flatten ++ doubleQuote :: rest) = outside rest := by
        induction pieces with
        | nil => rfl
        | cons piece pieces ih =>
            rw [List.forall_mem_cons] at hPieces
            rw [List.flatten_cons, List.append_assoc, inside_piece hPieces.1, ih hPieces.2]
      simpa [outside] using hInside

/-- The first letters of the names of special numbers. -/
def isSpecial (c : Char) : Bool := c == 'I' || c == 'N'

/-- Some characters have none of these letters outside texts. -/
def IsOrdinary (chars : List Char) : Prop :=
  ∃ shown, Shows chars shown ∧ ∀ c ∈ shown, isSpecial c = false

theorem IsOrdinary.append {chars more : List Char} (h : IsOrdinary chars)
    (hMore : IsOrdinary more) : IsOrdinary (chars ++ more) := by
  obtain ⟨shown, hShows, hNone⟩ := h
  obtain ⟨moreShown, hMoreShows, hMoreNone⟩ := hMore
  exact ⟨shown ++ moreShown, hShows.append hMoreShows,
    List.forall_mem_append.mpr ⟨hNone, hMoreNone⟩⟩

theorem isOrdinary_of_forall {chars : List Char}
    (h : ∀ c ∈ chars, c ≠ doubleQuote ∧ isSpecial c = false) : IsOrdinary chars :=
  ⟨chars, shows_of_forall_ne fun c hc => (h c hc).1, fun c hc => (h c hc).2⟩

theorem isOrdinary_singleton {c : Char} (h : c ≠ doubleQuote ∧ isSpecial c = false) :
    IsOrdinary [c] :=
  isOrdinary_of_forall (List.forall_mem_singleton.mpr h)

theorem isOrdinary_quoted {chars : List Char} (h : IsQuoted chars) : IsOrdinary chars :=
  ⟨[], shows_quoted h, List.forall_mem_nil _⟩

theorem isOrdinary_blanks {blanks : List Char} (h : ∀ c ∈ blanks, isBlank c) :
    IsOrdinary blanks := by
  apply isOrdinary_of_forall
  intro c hc
  have hBlank : c = ' ' ∨ c = '\t' ∨ c = '\n' ∨ c = '\r' := by
    simpa [isBlank, or_assoc] using h c hc
  rcases hBlank with rfl | rfl | rfl | rfl <;> decide

theorem isOrdinary_chars (l : Lexeme) : IsOrdinary l.chars := by
  apply isOrdinary_of_forall
  intro c hc
  rcases l.isNumeric_of_mem hc with hDigit | rfl | rfl | rfl | rfl | rfl
  · have hI : c ≠ 'I' := Numeral.ne_of_isDecimalDigit hDigit rfl
    have hN : c ≠ 'N' := Numeral.ne_of_isDecimalDigit hDigit rfl
    exact ⟨Numeral.ne_of_isDecimalDigit hDigit rfl, by simp [isSpecial, hI, hN]⟩
  all_goals decide

theorem IsOrdinary.separated {first rest : List Char} (h : IsOrdinary first)
    (hRest : IsOrdinary rest) {separator : Char}
    (hSeparator : separator ≠ doubleQuote ∧ isSpecial separator = false) :
    IsOrdinary (first ++ separator :: rest) :=
  h.append ((isOrdinary_singleton hSeparator).append hRest)

theorem IsOrdinary.enclosed {chars : List Char} (h : IsOrdinary chars) {opening closing : Char}
    (hOpening : opening ≠ doubleQuote ∧ isSpecial opening = false)
    (hClosing : closing ≠ doubleQuote ∧ isSpecial closing = false) :
    IsOrdinary (opening :: (chars ++ [closing])) :=
  (isOrdinary_singleton hOpening).append (h.append (isOrdinary_singleton hClosing))

/-- No phrase has the first letter of a special number outside its texts. -/
theorem Phrase.isOrdinary {sort : PhraseSort} {chars : List Char} (h : Phrase sort chars) :
    IsOrdinary chars := by
  induction h with
  | word h =>
      have hNames : ∀ name ∈ ["null", "true", "false"], ∀ c ∈ name.toList,
          c ≠ doubleQuote ∧ isSpecial c = false := by simp [isSpecial, doubleQuote]
      exact isOrdinary_of_forall (hNames _ h)
  | number l => exact isOrdinary_chars l
  | quoted h => exact isOrdinary_quoted h
  | emptyList h => exact (isOrdinary_blanks h).enclosed (by decide) (by decide)
  | list _ ih => exact ih.enclosed (by decide) (by decide)
  | emptyObject h => exact (isOrdinary_blanks h).enclosed (by decide) (by decide)
  | object _ ih => exact ih.enclosed (by decide) (by decide)
  | padded hBefore _ hAfter ih =>
      exact (isOrdinary_blanks hBefore).append (ih.append (isOrdinary_blanks hAfter))
  | lastItem _ ih => exact ih
  | moreItems _ _ ih ihRest => exact ih.separated ihRest (by decide)
  | member hBefore hKey hAfter _ ih =>
      have hColon : ':' ≠ doubleQuote ∧ isSpecial ':' = false := by decide
      have hValue := (isOrdinary_blanks hAfter).separated ih hColon
      exact (isOrdinary_blanks hBefore).append ((isOrdinary_quoted hKey).append hValue)
  | lastMember _ ih => exact ih
  | moreMembers _ _ ih ihRest => exact ih.separated ihRest (by decide)

/-- What some characters are evidence for: it holds, or one of the letters stands
outside texts. -/
def Reveals (chars : List Char) (p : Prop) : Prop :=
  ∃ shown, Shows chars shown ∧ (p ∨ ∃ c ∈ shown, isSpecial c = true)

theorem Reveals.append {chars more : List Char} {p q : Prop} (h : Reveals chars p)
    (hMore : Reveals more q) : Reveals (chars ++ more) (p ∧ q) := by
  obtain ⟨shown, hShows, hFirst⟩ := h
  obtain ⟨moreShown, hMoreShows, hSecond⟩ := hMore
  refine ⟨shown ++ moreShown, hShows.append hMoreShows, ?_⟩
  rcases hFirst with hFirst | ⟨c, hc, hSpecial⟩
  · rcases hSecond with hSecond | ⟨c, hc, hSpecial⟩
    · exact Or.inl ⟨hFirst, hSecond⟩
    · exact Or.inr ⟨c, List.mem_append_right _ hc, hSpecial⟩
  · exact Or.inr ⟨c, List.mem_append_left _ hc, hSpecial⟩

theorem IsOrdinary.reveals {chars : List Char} (h : IsOrdinary chars) {p : Prop} (hp : p) :
    Reveals chars p := by
  obtain ⟨shown, hShows, -⟩ := h
  exact ⟨shown, hShows, Or.inl hp⟩

theorem Reveals.behind {chars : List Char} {p : Prop} (h : Reveals chars p) {front : List Char}
    (hFront : IsOrdinary front) : Reveals (front ++ chars) p := by
  simpa using (hFront.reveals trivial).append h

theorem Reveals.enclosed {chars : List Char} {p : Prop} (h : Reveals chars p)
    {opening closing : Char} (hOpening : opening ≠ doubleQuote ∧ isSpecial opening = false)
    (hClosing : closing ≠ doubleQuote ∧ isSpecial closing = false) :
    Reveals (opening :: (chars ++ [closing])) p := by
  have hEnd := h.append ((isOrdinary_singleton hClosing).reveals trivial)
  rw [and_true] at hEnd
  exact hEnd.behind (isOrdinary_singleton hOpening)

theorem Reveals.separated {first rest : List Char} {p q : Prop} (h : Reveals first p)
    (hRest : Reveals rest q) {separator : Char}
    (hSeparator : separator ≠ doubleQuote ∧ isSpecial separator = false) :
    Reveals (first ++ separator :: rest) (p ∧ q) :=
  h.append (hRest.behind (isOrdinary_singleton hSeparator))

/-- The name of a special number is evidence for everything. -/
theorem reveals_name {name : List Char} (hQuote : ∀ c ∈ name, c ≠ doubleQuote)
    (hSpecial : ∃ c ∈ name, isSpecial c = true) (p : Prop) : Reveals name p :=
  ⟨name, shows_of_forall_ne hQuote, Or.inr hSpecial⟩

theorem reveals_of_finite {json : Json CodeText} (h : json.AllFinite) :
    Reveals json.write json.AllFinite :=
  (write_phrase h).isOrdinary.reveals h

theorem write_reveals_float (x : Binary64) : Reveals (write (.float x)) (x.isFinite = true) := by
  cases x with
  | notANumber =>
      have hName : write (.float .notANumber) = ['N', 'a', 'N'] := by decide
      rw [hName]
      exact reveals_name (by simp [doubleQuote]) ⟨'N', by simp, by decide⟩ _
  | infinite negative =>
      cases negative with
      | false =>
          have hName : write (.float (.infinite false)) =
              ['I', 'n', 'f', 'i', 'n', 'i', 't', 'y'] := by decide
          rw [hName]
          exact reveals_name (by simp [doubleQuote]) ⟨'I', by simp, by decide⟩ _
      | true =>
          have hName : write (.float (.infinite true)) =
              ['-', 'I', 'n', 'f', 'i', 'n', 'i', 't', 'y'] := by decide
          rw [hName]
          exact reveals_name (by simp [doubleQuote]) ⟨'I', by simp, by decide⟩ _
  | finite negative mantissa exponent hCanonical => exact reveals_of_finite rfl

mutual
/-- A written value is evidence that all its doubles are finite. -/
theorem write_reveals (json : Json CodeText) : Reveals json.write json.AllFinite := by
  cases json with
  | null => exact reveals_of_finite trivial
  | boolean b => exact reveals_of_finite trivial
  | integer n => exact reveals_of_finite trivial
  | float x => exact write_reveals_float x
  | text s => exact reveals_of_finite trivial
  | list items =>
      rw [write, AllFinite]
      exact (writeItems_reveals items).enclosed (by decide) (by decide)
  | object members =>
      rw [write, AllFinite]
      exact (writeMembers_reveals members).enclosed (by decide) (by decide)

theorem writeItems_reveals (items : List (Json CodeText)) :
    Reveals (writeItems items) (AllFiniteItems items) := by
  cases items with
  | nil => exact (isOrdinary_of_forall (List.forall_mem_nil _)).reveals trivial
  | cons item rest =>
      rw [AllFiniteItems]
      have hItem := write_reveals item
      cases rest with
      | nil => simpa only [writeItems, AllFiniteItems, and_true] using hItem
      | cons next more =>
          rw [writeItems_more item (List.cons_ne_nil next more)]
          exact hItem.separated (writeItems_reveals (next :: more)) (by decide)

theorem writeMembers_reveals (members : List (CodeText × Json CodeText)) :
    Reveals (writeMembers members) (AllFiniteMembers members) := by
  cases members with
  | nil => exact (isOrdinary_of_forall (List.forall_mem_nil _)).reveals trivial
  | cons member rest =>
      rw [AllFiniteMembers]
      have hKey := (isOrdinary_quoted (writeText_isQuoted member.1)).append
        (isOrdinary_singleton (c := ':') (by decide))
      have hMember := (write_reveals member.2).behind hKey
      rw [List.append_assoc, List.singleton_append] at hMember
      cases rest with
      | nil => simpa only [writeMembers, AllFiniteMembers, and_true] using hMember
      | cons next more =>
          have hComma : ',' ≠ doubleQuote ∧ isSpecial ',' = false := by decide
          have hMore := hMember.separated (writeMembers_reveals (next :: more)) hComma
          rw [List.append_assoc, List.cons_append] at hMore
          rw [writeMembers_more member.1 member.2 (List.cons_ne_nil next more)]
          exact hMore
end

/-- The text of a value is JSON exactly when all doubles in it are finite. -/
theorem render_isText_iff (json : Json CodeText) : IsText json.render ↔ json.AllFinite := by
  rw [IsText, render, String.toList_ofList]
  constructor
  · intro hPhrase
    obtain ⟨shown, hShows, hNone⟩ := hPhrase.isOrdinary
    obtain ⟨other, hOther, hFinite | ⟨c, hc, hSpecial⟩⟩ := write_reveals json
    · exact hFinite
    · rw [hOther.unique hShows] at hc
      rw [hNone c hc] at hSpecial
      cases hSpecial
  · intro hFinite
    exact (write_phrase hFinite).toText

end SchemaModels.Json
