import SchemaModels.Proofs.Yaml.Runs

/-!
Any text as a value. In double quotes every character is written as itself or by its
escape, and a line end behind a backslash stands in front of no blank. What is written as
a value is in the grammar of the scalars that are read as the same text.
-/
namespace SchemaModels.Yaml.Writer

open Text (IsVisibleAscii hexDigits)

/-- What holds of all entries of a table holds of each that is found. -/
theorem forall_lookup {α β : Type} [BEq α] [LawfulBEq α] {P : α → β → Prop} {table : List (α × β)}
    (h : ∀ entry ∈ table, P entry.1 entry.2) {a : α} {b : β} (hFound : table.lookup a = some b) :
    P a b := by
  obtain ⟨before, behind, rfl, -⟩ := List.lookup_eq_some_iff.mp hFound
  exact h (a, b) (List.mem_append_right _ (List.mem_cons_self ..))

theorem letterEscape?_escapeLetter? {c letter : Char} (h : escapeLetter? c = some letter) :
    IsVisibleAscii letter ∧ letterEscape? letter = some c := by
  have hLetter := forall_lookup (P := fun n letter =>
    IsVisibleAscii letter ∧ letterEscape? letter = some (Char.ofNat n)) (by decide) h
  rwa [Char.ofNat_toNat] at hLetter

theorem characterOf_toNat (c : Char) : characterOf c.toNat = .ok c := by
  have hSurrogate := Text.not_surrogate c
  unfold characterOf
  rw [if_neg (by omega), if_neg (by omega), if_neg, Char.ofNat_toNat]
  simp
  omega

section Escape

variable {c : Char} {written text : List Char}

/-- The escape by code. -/
theorem quotes_code {mark : Char} {width : Nat} (hVisible : IsVisibleAscii mark)
    (hMark : letterEscape? mark = none) (hWidth : codeWidth? mark = some width)
    (hEnough : c.toNat < 16 ^ width) (more : Quotes true written text) :
    Quotes true ('\\' :: mark :: ((hexDigits width c.toNat).map Char.toUpper ++ written))
      (c :: text) := by
  refine .code (List.forall_mem_cons.mpr ⟨hVisible, ?_⟩) hMark (by simpa using hWidth)
    (Text.hexNumber?_map (fun _ => Text.hexValue?_toUpper_hexDigit) hEnough) (characterOf_toNat c)
    more
  intro d hd
  obtain ⟨_, hDigit, rfl⟩ := List.mem_map.mp hd
  obtain ⟨k, hk, rfl⟩ := Text.exists_of_mem_hexDigits _ _ _ hDigit
  exact Text.toUpper_hexDigit_visible hk

/-- The escape of a character stands for it. -/
theorem quotes_escape {escape : List Char} (h : escape? c = some escape)
    (more : Quotes true written text) : Quotes true (escape ++ written) (c :: text) := by
  have hCode := (Text.not_surrogate c)
  unfold escape? at h
  split at h
  · rename_i letter hLetter
    cases h
    obtain ⟨hVisible, hLetter⟩ := letterEscape?_escapeLetter? hLetter
    exact .letter hVisible hLetter more
  · dsimp only at h
    split_ifs at h with hPlain hByte hShort
    all_goals cases h
    · exact quotes_code (by decide) (by decide) rfl hByte more
    · exact quotes_code (by decide) (by decide) rfl hShort more
    · exact quotes_code (by decide) (by decide) rfl (by omega) more

/-- A character without an escape is written as itself. -/
theorem of_escape?_none (h : escape? c = none) :
    IsVisibleAscii c ∧ c ≠ quoteOf true ∧ c ≠ '\\' := by
  refine ⟨?_, ?_, ?_⟩
  · unfold escape? at h
    split at h
    · cases h
    · dsimp only at h
      split_ifs at h with hShown
      have hNoFeed : c ≠ '\n' := by
        rintro rfl
        exact absurd hShown (by decide)
      exact (isOrdinary_iff.mp (by simp [isOrdinary, hShown])).resolve_left hNoFeed
  · rintro rfl
    exact absurd h (by decide)
  · rintro rfl
    exact absurd h (by decide)

theorem head?_escape {escape : List Char} (h : escape? c = some escape) :
    escape.head? = some '\\' := by
  unfold escape? at h
  split at h
  · cases h
    rfl
  · dsimp only at h
    split_ifs at h
    all_goals
      cases h
      rfl

end Escape

/-- A text that begins with no space is written in double quotes without a blank in front. -/
theorem startsInside_writeDouble {chars : List Char} (h : chars.head? ≠ some ' ') (first : Bool)
    (column held : Nat) : StartsInside (writeDouble first column held chars) := by
  cases chars with
  | nil => exact startsInside_nil
  | cons c rest =>
      have hBackslash : isSeparator '\\' = false := by decide
      rw [writeDouble]
      split
      · rename_i escape hEscape
        obtain ⟨more, rfl⟩ := List.head?_eq_some_iff.mp (head?_escape hEscape)
        dsimp only
        split <;> exact startsInside_cons.mpr hBackslash
      · rename_i hEscape
        split
        · exact startsInside_cons.mpr hBackslash
        · refine startsInside_cons.mpr ?_
          exact isSeparator_of_visible (of_escape?_none hEscape).1 (by simpa using h)

/-- What stands behind a line end: the rest of a text, and a backslash in front if it
begins with a space. -/
def guarded (chars : List Char) : List Char :=
  if chars.head? == some ' ' then '\\' :: writeDouble false (continuationIndent + 1) 0 chars
  else writeDouble false continuationIndent 0 chars

theorem guarded_startsInside (chars : List Char) : StartsInside (guarded chars) := by
  unfold guarded
  split
  · exact startsInside_cons.mpr rfl
  · rename_i hSpace
    exact startsInside_writeDouble (by simpa using hSpace) false continuationIndent 0

theorem guarded_eq (chars : List Char) :
    (if (chars.head? == some ' ') = true then ['\\'] else []) ++
      writeDouble false (continuationIndent + if (chars.head? == some ' ') = true then 1 else 0) 0
        chars = guarded chars := by
  unfold guarded
  split <;> rfl

section Double

variable {c : Char} {chars rest : List Char}

/-- A character without an escape, in front of what is written of the rest. -/
theorem quotes_unescaped {written : List Char} (h : escape? c = none)
    (more : Quotes true written rest) : Quotes true (c :: written) (c :: rest) := by
  obtain ⟨hVisible, hQuote, hBackslash⟩ := of_escape?_none h
  by_cases hSpace : c = ' '
  · rw [hSpace]
    exact more.space
  · exact .char hVisible hSpace hQuote (fun _ => hBackslash) more

/-- The same behind a line end. -/
theorem quotes_unescaped_guarded {written : List Char} (h : escape? c = none)
    (more : Quotes true written rest) :
    Quotes true ('\\' :: lineStart ++ ((if (c == ' ') = true then ['\\'] else []) ++ c :: written))
      (c :: rest) := by
  split
  · rename_i hSpace
    obtain rfl : c = ' ' := by simpa using hSpace
    exact .joined (startsInside_cons.mpr rfl) (.letter (by decide) (by decide) more)
  · rename_i hSpace
    have hSpace : c ≠ ' ' := by simpa using hSpace
    have hInside := isSeparator_of_visible (of_escape?_none h).1 hSpace
    exact .joined (startsInside_cons.mpr hInside) (quotes_unescaped h more)

/-- What is guarded stands for the rest of the text. -/
theorem quotes_guarded
    (h : ∀ first column held, Quotes true (writeDouble first column held chars) chars)
    (hTail : ∀ first column held,
      Quotes true (writeDouble first column held chars.tail) chars.tail) :
    Quotes true (guarded chars) chars := by
  unfold guarded
  split
  · rename_i hSpace
    obtain ⟨rest, rfl⟩ := List.head?_eq_some_iff.mp (by simpa using hSpace)
    -- A line that has just begun is not broken again.
    have hKept : writeDouble false (continuationIndent + 1) 0 (' ' :: rest) =
        ' ' :: writeDouble false (continuationIndent + 1) 1 rest := by
      have hNone : escape? ' ' = none := by decide
      simp [writeDouble, hNone, bestWidth, continuationIndent]
    rw [hKept]
    exact .letter (by decide) (by decide) (hTail ..)
  · exact h ..

/-- A text in double quotes. The rest of it is taken up in the line or behind a line end. -/
theorem quotes_writeDouble (chars : List Char) :
    (∀ first column held, Quotes true (writeDouble first column held chars) chars) ∧
      Quotes true (guarded chars) chars := by
  induction chars with
  | nil => exact ⟨fun _ _ _ => .nil, .nil⟩
  | cons c rest ih =>
      obtain ⟨hRest, hGuarded⟩ := ih
      have hAll (first : Bool) (column held : Nat) :
          Quotes true (writeDouble first column held (c :: rest)) (c :: rest) := by
        rw [writeDouble]
        split
        · rename_i escape hEscape
          dsimp only
          split
          · rw [List.append_assoc, List.append_assoc, guarded_eq]
            exact quotes_escape hEscape (.joined (guarded_startsInside rest) hGuarded)
          · exact quotes_escape hEscape (hRest ..)
        · rename_i hEscape
          split
          · rw [List.append_assoc]
            exact quotes_unescaped_guarded hEscape (hRest ..)
          · exact quotes_unescaped hEscape (hRest ..)
      exact ⟨hAll, quotes_guarded hAll hRest⟩

end Double

/-! Values. -/

theorem hasPair_eq_false {first second : Char} {chars : List Char}
    (h : first ∉ chars ∨ second ∉ chars) : hasPair first second chars = false := by
  induction chars with
  | nil => rfl
  | cons c rest ih =>
      rw [hasPair_cons]
      refine ⟨?_, ih (h.imp (mt (List.mem_cons_of_mem _)) (mt (List.mem_cons_of_mem _)))⟩
      rintro ⟨rfl, hHead⟩
      rcases h with h | h
      · exact h (List.mem_cons_self ..)
      · exact h (List.mem_cons_of_mem _ (List.mem_of_mem_head? hHead))

/-- How a text that is written plain begins. -/
structure Begins (c : Char) (rest : List Char) : Prop where
  indicator : isIndicator c = false
  mark : c = '?' ∨ c = ':' ∨ c = '-' → endsOr isSeparator rest = false

/-- A text that is written plain, from its first character on. -/
structure PlainLine (c : Char) (rest : List Char) : Prop where
  ordinary : ∀ d ∈ c :: rest, isOrdinary d = true
  line : '\n' ∉ c :: rest
  head : c ≠ ' '
  last : (c :: rest).getLast? ≠ some ' '
  begins : Begins c rest
  follow : mayFollow ' ' (c :: rest) = true
  form : Tag.ofForm (String.ofList (c :: rest)) = .text

theorem begins_of_mayBegin {c : Char} {rest : List Char} (h : mayBegin (c :: rest) = true) :
    Begins c rest := by
  simp only [mayBegin, Bool.not_eq_true', Bool.or_eq_false_iff, Bool.and_eq_false_iff] at h
  refine ⟨h.1.1.1, fun hMark => h.2.resolve_left ?_⟩
  rcases hMark with rfl | rfl | rfl <;> simp

theorem exists_plainLine {chars : List Char} (h : isPlain chars = true) :
    ∃ c rest, chars = c :: rest ∧ PlainLine c rest := by
  cases chars with
  | nil => cases h
  | cons c rest =>
      simp only [isPlain, Bool.and_eq_true, List.all_eq_true, Bool.not_eq_true', bne_iff_ne,
        beq_iff_eq] at h
      obtain ⟨⟨⟨⟨⟨⟨hOrdinary, hLine⟩, hHead⟩, hLast⟩, hBegin⟩, hFollow⟩, hForm⟩ := h
      have hBegins := begins_of_mayBegin hBegin
      have hColon : (c == ':' && endsOr isSeparator rest) = false := by
        by_cases hc : c = ':'
        · rw [hBegins.mark (.inr (.inl hc)), Bool.and_false]
        · simp [hc]
      have hSign : c ≠ '#' := by
        rintro rfl
        exact absurd hBegins.indicator (by decide)
      refine ⟨c, rest, rfl, hOrdinary, by simpa using hLine, hHead, hLast, hBegins, ?_, hForm⟩
      rw [mayFollow, hColon, hFollow]
      simp [hSign]

/-- A plain line is written as a plain scalar. -/
theorem PlainLine.plain {c : Char} {rest : List Char} (h : PlainLine c rest) (first : Bool)
    (column : Nat) : Plain (writeRuns false first column (runsOf (c :: rest))) (c :: rest) := by
  have hRuns := runsOf_alternates h.ordinary (hasPair_eq_false (.inr h.line))
    (hasPair_eq_false (.inl h.line))
  have hText := textOf_runsOf (c :: rest)
  cases hShape : runsOf (c :: rest) with
  | nil =>
      rw [hShape] at hText
      cases hText
  | cons run runs =>
      rw [hShape] at hRuns hText
      cases run with
      | spaces count =>
          have hHead := head?_textOf_spaces hRuns.head runs
          rw [hText] at hHead
          exact absurd (Option.some.inj hHead) h.head
      | breaks count =>
          have hHead := head?_textOf_breaks hRuns.head runs
          rw [hText] at hHead
          exact absurd (List.mem_of_mem_head? hHead) h.line
      | words chars =>
          rw [textOf_cons, Run.text] at hText
          have hLine := h.line
          have hLast := h.last
          have hFollow := h.follow
          rw [← hText] at hLine hLast hFollow ⊢
          refine plain_writeRuns hRuns (mt (List.mem_append_right _) hLine) ?_ hFollow first column
          intro hSpace
          simp [List.getLast?_append, hSpace] at hLast

/-- What is written begins as the text does, and goes on like it. -/
theorem Begins.of_plain {c : Char} {written rest : List Char} (h : Begins c rest)
    (hPlain : Plain written (c :: rest)) :
    ∃ more, written = c :: more ∧ ∀ after, Begins c (more ++ after) := by
  obtain ⟨piece, written', text', hPiece, rfl, hText, hEnd⟩ := hPlain.exists_piece
  cases piece with
  | nil => exact absurd rfl hPiece.nonempty
  | cons d piece =>
      obtain ⟨rfl, rfl⟩ := List.cons.inj hText
      refine ⟨piece ++ written', rfl, fun after => ⟨h.indicator, fun hMark => ?_⟩⟩
      cases piece with
      | nil => exact absurd (hEnd.symm.trans (h.mark hMark)) (by decide)
      | cons d piece => exact hPiece.inside d (by simp)

/-- What is written as a value, whether it is plain, and the text that it stands for. -/
inductive Writes : Bool → List Char → List Char → Prop where
  | plain {c : Char} {written rest : List Char} (hLine : PlainLine c rest)
      (hPlain : Plain written (c :: rest)) : Writes true written (c :: rest)
  | quoted {double : Bool} {written text : List Char} (hQuotes : Quotes double written text) :
      Writes false (quoteOf double :: (written ++ [quoteOf double])) text

/-- A text is written as a value that stands for it. -/
theorem writes_writeValue (key value : String) :
    Writes (isPlain value.toList) (writeValue key value) value.toList := by
  unfold writeValue
  dsimp only
  split
  · rename_i hPlain
    obtain ⟨c, rest, hChars, hLine⟩ := exists_plainLine hPlain
    rw [hPlain, hChars]
    exact .plain hLine (hLine.plain ..)
  · rename_i hPlain
    rw [Bool.not_eq_true] at hPlain
    rw [hPlain]
    split
    · rename_i hSingle
      simp only [isSingleQuoted, Bool.and_eq_true, List.all_eq_true, Bool.not_eq_true'] at hSingle
      obtain ⟨⟨hOrdinary, hSpace⟩, hFeed⟩ := hSingle
      have hRuns := runsOf_alternates hOrdinary hSpace hFeed
      have hQuotes := quotes_writeRuns hRuns true (key.length + 2 + 1)
      rw [textOf_runsOf] at hQuotes
      exact .quoted hQuotes
    · exact .quoted ((quotes_writeDouble value.toList).1 ..)

theorem Writes.allowed {plain : Bool} {written text : List Char} (h : Writes plain written text) :
    ∀ c ∈ written, isAllowed c = true := by
  cases h with
  | plain hLine hPlain => exact hPlain.allowed
  | @quoted double written text hQuotes =>
      have hQuote : isAllowed (quoteOf double) = true := by cases double <;> decide
      exact List.forall_mem_cons.mpr ⟨hQuote, List.forall_mem_append.mpr
        ⟨hQuotes.allowed, List.forall_mem_singleton.mpr hQuote⟩⟩

end SchemaModels.Yaml.Writer
