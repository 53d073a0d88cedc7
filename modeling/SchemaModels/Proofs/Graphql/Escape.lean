import SchemaModels.Proofs.Graphql.Line

/-!
Escapes, and the texts that they stand in. How many characters an escape has is
known from the escape alone, so a text between quotes is read in the same way
whatever follows its closing quote.
-/
namespace SchemaModels.Graphql.Lexer

/-- The characters of a code are on one line. -/
theorem not_isLineEnd_of_hexValue? {c : Char} (h : (Text.hexValue? c).isSome) :
    isLineEnd c = false := by
  rw [Bool.eq_false_iff]
  intro hLineEnd
  rcases isLineEnd_iff.mp hLineEnd with rfl | rfl
  · cases h
  · cases h

/-- A code in braces is read in the same way whatever follows, unless less of it may
be read than there is. -/
theorem bracedCode_append {limit code count n : Nat} {chars : List Char} {c : Char}
    (h : bracedCode limit code count chars = .ok (c, n)) :
    ∃ front rest, chars = front ++ rest ∧ front.length ≤ limit ∧ count + front.length = n ∧
      (∀ d ∈ front, isLineEnd d = false) ∧
      ∀ other limit', front.length ≤ limit' →
        bracedCode limit' code count (front ++ other) = .ok (c, n) := by
  induction limit generalizing code count chars with
  | zero => cases h
  | succ limit ih =>
      cases chars with
      | nil => cases h
      | cons d rest =>
          by_cases hBrace : d = '}'
          · subst hBrace
            refine ⟨['}'], rest, rfl, by simp, ?_, by simp [isLineEnd], ?_⟩
            · simp only [bracedCode, if_true] at h
              split at h
              · split at h
                · cases h
                · cases h
                  rfl
              · cases h
            · intro other limit' hLimit
              obtain ⟨k, rfl⟩ : ∃ k, limit' = k + 1 := ⟨limit' - 1, by simp at hLimit; omega⟩
              exact h
          · cases hDigit : Text.hexValue? d with
            | none => simp [bracedCode, hBrace, hDigit] at h
            | some digit =>
                simp only [bracedCode, hBrace, if_false, hDigit] at h
                obtain ⟨front, rest, rfl, hLength, rfl, hFront, hOther⟩ := ih h
                have hd := not_isLineEnd_of_hexValue? (Option.isSome_of_eq_some hDigit)
                refine ⟨d :: front, rest, rfl, Nat.succ_le_succ hLength, ?_,
                  List.forall_mem_cons.mpr ⟨hd, hFront⟩, ?_⟩
                · rw [List.length_cons]
                  omega
                · intro other limit' hLimit
                  obtain ⟨k, rfl⟩ : ∃ k, limit' = k + 1 := ⟨limit' - 1, by simp at hLimit; omega⟩
                  simp only [List.cons_append, bracedCode, hBrace, if_false, hDigit]
                  exact hOther other k (Nat.le_of_succ_le_succ hLimit)

/-- All characters of a hexadecimal number are digits. -/
theorem hexValue?_of_hexNumber? {digits : List Char} {start n : Nat}
    (h : digits.foldlM (fun n c => (Text.hexValue? c).map (16 * n + ·)) start = some n) :
    ∀ c ∈ digits, (Text.hexValue? c).isSome := by
  induction digits generalizing start with
  | nil => exact List.forall_mem_nil _
  | cons c digits ih =>
      rw [List.foldlM_cons, Option.bind_eq_bind, Option.bind_eq_some_iff] at h
      obtain ⟨next, hNext, hRest⟩ := h
      obtain ⟨value, hValue, -⟩ := Option.map_eq_some_iff.mp hNext
      exact List.forall_mem_cons.mpr ⟨by rw [hValue]; rfl, ih hRest⟩

theorem fourDigitCode?_append {chars : List Char} {code : Nat}
    (h : fourDigitCode? chars = some code) :
    ∃ front rest, chars = front ++ rest ∧ front.length = 4 ∧
      (∀ d ∈ front, (Text.hexValue? d).isSome) ∧
      ∀ other, fourDigitCode? (front ++ other) = some code := by
  unfold fourDigitCode? at h
  split at h
  · rename_i a b c d rest
    exact ⟨[a, b, c, d], rest, rfl, rfl, hexValue?_of_hexNumber? h, fun _ => h⟩
  · cases h

/-- The low surrogate of a pair, from behind the high one on. -/
def lowSurrogate? (high : Nat) (chars : List Char) : Option (Char × Nat) :=
  if high < 0xdc00 && chars.take 2 == ['\\', 'u'] then
    match fourDigitCode? (chars.drop 2) with
    | some low =>
      if 0xdc00 ≤ low && low < 0xe000 then some (joinSurrogates high low, 10) else none
    | none => none
  else none

theorem fixedCode_eq (chars : List Char) : fixedCode chars =
    match fourDigitCode? chars with
    | none => none
    | some code =>
      match scalar? code with
      | some char => some (char, 4)
      | none => lowSurrogate? code (chars.drop 4) := by
  have hDrop : (chars.drop 4).drop 2 = chars.drop 6 := List.drop_drop
  unfold lowSurrogate?
  rw [hDrop]
  rfl

theorem lowSurrogate?_append {high n : Nat} {chars : List Char} {c : Char}
    (h : lowSurrogate? high chars = some (c, n)) :
    ∃ front rest, chars = front ++ rest ∧ front.length + 4 = n ∧
      (∀ d ∈ front, isLineEnd d = false) ∧
      ∀ other, lowSurrogate? high (front ++ other) = some (c, n) := by
  unfold lowSurrogate? at h
  split at h
  · rename_i hMark
    rw [Bool.and_eq_true, beq_iff_eq] at hMark
    obtain ⟨after, rfl⟩ : ∃ after, chars = '\\' :: 'u' :: after := by
      rw [← List.take_append_drop 2 chars, hMark.2]
      exact ⟨_, rfl⟩
    cases hLow : fourDigitCode? after with
    | none => simp [hLow] at h
    | some low =>
        obtain ⟨digits, rest, rfl, hLength, hDigits, hOther⟩ := fourDigitCode?_append hLow
        simp only [List.drop_succ_cons, List.drop_zero, hLow] at h
        split at h
        · rename_i hRange
          obtain ⟨rfl, rfl⟩ := Prod.mk.inj (Option.some.inj h)
          refine ⟨'\\' :: 'u' :: digits, rest, rfl, by simp [hLength], ?_, fun other => ?_⟩
          · rw [List.forall_mem_cons, List.forall_mem_cons]
            exact ⟨by decide, by decide, fun d hd => not_isLineEnd_of_hexValue? (hDigits d hd)⟩
          · simp [lowSurrogate?, hMark.1, hOther, hRange]
        · cases h
  · cases h

/-- A code of four digits, or of two times four, is read in the same way whatever
follows. -/
theorem fixedCode_append {chars : List Char} {c : Char} {n : Nat}
    (h : fixedCode chars = some (c, n)) :
    ∃ front rest, chars = front ++ rest ∧ front.length = n ∧ front ≠ [] ∧
      (∀ d ∈ front, isLineEnd d = false) ∧ ∀ other, fixedCode (front ++ other) = some (c, n) := by
  rw [fixedCode_eq] at h
  cases hCode : fourDigitCode? chars with
  | none => simp [hCode] at h
  | some code =>
      obtain ⟨digits, rest, rfl, hLength, hDigits, hOther⟩ := fourDigitCode?_append hCode
      have hLine : ∀ d ∈ digits, isLineEnd d = false :=
        fun d hd => not_isLineEnd_of_hexValue? (hDigits d hd)
      have hNonempty : digits ≠ [] := by
        rintro rfl
        cases hLength
      have hDrop (other : List Char) : (digits ++ other).drop 4 = other := List.drop_left' hLength
      cases hScalar : scalar? code with
      | some char =>
          simp only [hCode, hScalar, Option.some.injEq, Prod.mk.injEq] at h
          obtain ⟨rfl, rfl⟩ := h
          refine ⟨digits, rest, rfl, hLength, hNonempty, hLine, fun other => ?_⟩
          simp [fixedCode_eq, hOther, hScalar]
      | none =>
          simp only [hCode, hScalar, hDrop] at h
          obtain ⟨back, rest, rfl, hBackLength, hBack, hBackOther⟩ := lowSurrogate?_append h
          refine ⟨digits ++ back, rest, by simp, by simp; omega, by simp [hNonempty],
            List.forall_mem_append.mpr ⟨hLine, hBack⟩, fun other => ?_⟩
          simp [fixedCode_eq, hOther, hScalar, hDrop, hBackOther]

theorem not_isLineEnd_of_letterEscape? {letter c : Char} (h : letterEscape? letter = some c) :
    isLineEnd letter = false := by
  rw [Bool.eq_false_iff]
  intro hLineEnd
  rcases isLineEnd_iff.mp hLineEnd with rfl | rfl
  · cases h
  · cases h

/-- An escape is read in the same way whatever follows. -/
theorem readEscape_append {chars : List Char} {c : Char} {n : Nat}
    (h : readEscape chars = .ok (c, n)) :
    ∃ front rest, chars = front ++ rest ∧ front.length = n ∧
      (∀ d ∈ front, isLineEnd d = false) ∧ ∀ other, readEscape (front ++ other) = .ok (c, n) := by
  unfold readEscape at h
  split at h
  · rename_i rest
    split at h
    · rename_i char count hBraced
      obtain ⟨front, rest, rfl, hLimit, hLength, hFront, hOther⟩ := bracedCode_append hBraced
      obtain ⟨rfl, rfl⟩ := Prod.mk.inj (Except.ok.inj h)
      refine ⟨'u' :: '{' :: front, rest, rfl, by simp; omega, ?_, fun other => ?_⟩
      · rw [List.forall_mem_cons, List.forall_mem_cons]
        exact ⟨by decide, by decide, hFront⟩
      · have hSame := hOther other (min 9 (front ++ other).length) (by simp at hLimit ⊢; omega)
        simp only [List.cons_append, readEscape, hSame]
    · cases h
  · rename_i rest hBrace
    split at h
    · rename_i char count hFixed
      obtain ⟨front, rest, rfl, hLength, hNonempty, hFront, hOther⟩ := fixedCode_append hFixed
      obtain ⟨rfl, rfl⟩ := Prod.mk.inj (Except.ok.inj h)
      refine ⟨'u' :: front, rest, rfl, by simp [hLength], ?_, fun other => ?_⟩
      · exact List.forall_mem_cons.mpr ⟨by decide, hFront⟩
      · obtain ⟨d, tail, rfl⟩ := List.exists_cons_of_ne_nil hNonempty
        rw [List.cons_append, readEscape, hOther]
        intro more hCons
        obtain ⟨rfl, -⟩ := List.cons.inj hCons
        exact hBrace _ rfl
    · cases h
  · rename_i letter rest hBrace hUnicode
    split at h
    · rename_i char hLetter
      obtain ⟨rfl, rfl⟩ := Prod.mk.inj (Except.ok.inj h)
      refine ⟨[letter], rest, rfl, rfl,
        by simpa using not_isLineEnd_of_letterEscape? hLetter, fun other => ?_⟩
      rw [List.cons_append, readEscape, hLetter]
      · exact fun _ hLetter _ => hUnicode hLetter
      · exact hUnicode
    · cases h
  · cases h

/-- A text between quotes is on one line, and nothing behind its closing quote
matters. The characters of an escape that is read already are on the line as well. -/
theorem readText_append {skip : Nat} {chars text rest : List Char}
    (h : readText skip chars = .ok (text, rest))
    (hSkip : ∀ c ∈ chars.take skip, isLineEnd c = false) :
    ∃ front, chars = front ++ rest ∧ skip ≤ front.length ∧
      (∀ c ∈ front, isLineEnd c = false) ∧
      ∀ other, readText skip (front ++ other) = .ok (text, other) := by
  fun_induction readText skip chars generalizing text rest with
  | case1 => cases h
  | case2 skip c after ih =>
      rw [List.take_succ_cons, List.forall_mem_cons] at hSkip
      obtain ⟨front, rfl, hLength, hFront, hOther⟩ := ih h hSkip.2
      exact ⟨c :: front, rfl, Nat.succ_le_succ hLength,
        List.forall_mem_cons.mpr ⟨hSkip.1, hFront⟩, hOther⟩
  | case3 after =>
      cases h
      exact ⟨[Text.doubleQuote], rfl, Nat.zero_le _, List.forall_mem_singleton.mpr rfl, fun _ => rfl⟩
  | case4 => cases h
  | case5 after char count hEscape hQuote hLineEnd ih =>
      obtain ⟨escape, behind, rfl, hCount, hEscapeLine, hEscapeOther⟩ := readEscape_append hEscape
      obtain ⟨read, hRead, rfl⟩ := mapPiece_ok h
      obtain ⟨front, hSplit, hLength, hFront, hOther⟩ :=
        ih hRead (by rw [List.take_left' hCount]; exact hEscapeLine)
      obtain ⟨back, rfl⟩ : escape <+: front :=
        List.prefix_of_prefix_length_le ⟨behind, rfl⟩ ⟨rest, hSplit.symm⟩ (hCount ▸ hLength)
      refine ⟨'\\' :: (escape ++ back), by rw [hSplit, List.cons_append], Nat.zero_le _,
        List.forall_mem_cons.mpr ⟨by decide, hFront⟩, fun other => ?_⟩
      have hSame := hEscapeOther (back ++ other)
      rw [← List.append_assoc] at hSame
      simp only [List.cons_append, readText, hQuote, hLineEnd, Bool.false_eq_true, if_false, if_true,
        hSame, hOther, mapPiece]
  | case6 => cases h
  | case7 c after hQuote hLineEnd hBackslash ih => 
      obtain ⟨read, hRead, rfl⟩ := mapPiece_ok h
      obtain ⟨front, rfl, -, hFront, hOther⟩ := ih hRead (by simp)
      refine ⟨c :: front, rfl, Nat.zero_le _, List.forall_mem_cons.mpr ⟨by simpa using hLineEnd, hFront⟩, fun other => ?_⟩
      simp [readText, hQuote, hLineEnd, hBackslash, hOther, mapPiece]

theorem readText_isLocal : IsLocal (readText 0) := by
  intro chars text rest h
  obtain ⟨front, hChars, -, hFront, hOther⟩ := readText_append h (by simp)
  exact ⟨front, hChars, hFront, fun other _ => hOther other⟩

end SchemaModels.Graphql.Lexer
