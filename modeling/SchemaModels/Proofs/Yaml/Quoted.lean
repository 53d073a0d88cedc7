import SchemaModels.Proofs.Yaml.Cursor
import SchemaModels.Yaml.Scalar
import SchemaModels.Yaml.Writer

/-!
Scalars in quotes. `Quotes` is the grammar of what stands between quotes in ASCII,
with the text that it stands for, and a scalar is read as its grammar says.
-/
namespace SchemaModels.Yaml

open Text (IsVisibleAscii)
open Writer (lineStart)

/-- The quote on both sides of a scalar. -/
def quoteOf (double : Bool) : Char := if double then Text.doubleQuote else Text.singleQuote

/-- What is written between quotes, and the text that it stands for. -/
inductive Quotes : Bool → List Char → List Char → Prop where
  | nil {double : Bool} : Quotes double [] []
  | char {double : Bool} {c : Char} {written text : List Char} (hVisible : IsVisibleAscii c)
      (hSpace : c ≠ ' ') (hQuote : c ≠ quoteOf double) (hEscape : double = true → c ≠ '\\')
      (more : Quotes double written text) : Quotes double (c :: written) (c :: text)
  | spaces {double : Bool} {written text : List Char} (count : Nat) (hInside : StartsInside written)
      (more : Quotes double written text) :
      Quotes double (List.replicate (count + 1) ' ' ++ written)
        (List.replicate (count + 1) ' ' ++ text)
  /-- The quote itself is written twice in single quotes. -/
  | doubled {written text : List Char} (more : Quotes false written text) :
      Quotes false (Text.singleQuote :: Text.singleQuote :: written) (Text.singleQuote :: text)
  /-- Of some line ends in a row the last one only begins the next line. -/
  | lines {written text : List Char} (count : Nat) (hInside : StartsInside written)
      (more : Quotes false written text) :
      Quotes false (List.replicate count '\n' ++ lineStart ++ written)
        (foldBreaks '\n' (List.replicate count '\n') ++ text)
  | letter {letter c : Char} {written text : List Char} (hVisible : IsVisibleAscii letter)
      (hLetter : letterEscape? letter = some c) (more : Quotes true written text) :
      Quotes true ('\\' :: letter :: written) (c :: text)
  | code {mark c : Char} {digits written text : List Char} {number : Nat}
      (hVisible : ∀ d ∈ mark :: digits, IsVisibleAscii d) (hMark : letterEscape? mark = none)
      (hWidth : codeWidth? mark = some digits.length)
      (hNumber : Text.hexNumber? digits = some number) (hChar : characterOf number = .ok c)
      (more : Quotes true written text) :
      Quotes true ('\\' :: mark :: (digits ++ written)) (c :: text)
  /-- A line end behind a backslash counts for nothing. -/
  | joined {written text : List Char} (hInside : StartsInside written)
      (more : Quotes true written text) : Quotes true ('\\' :: lineStart ++ written) text

namespace Quotes

variable {double : Bool} {written text : List Char}

/-- In double quotes a line end is written by its letter, so a space goes with any that
follow. -/
theorem space (h : Quotes true written text) : Quotes true (' ' :: written) (' ' :: text) := by
  have hAlone (hInside : StartsInside written) : Quotes true (' ' :: written) (' ' :: text) :=
    .spaces 0 hInside h
  cases h with
  | nil => exact hAlone startsInside_nil
  | char hVisible hSpace =>
      exact hAlone (startsInside_cons.mpr (isSeparator_of_visible hVisible hSpace))
  | spaces count hInside more => exact .spaces (count + 1) hInside more
  | letter | code | joined => exact hAlone (startsInside_cons.mpr rfl)

/-- All that is written between quotes is allowed in a text. -/
theorem allowed (h : Quotes double written text) : ∀ c ∈ written, isAllowed c = true := by
  have hFeed : isAllowed '\n' = true := by decide
  have hBlank : isAllowed ' ' = true := by decide
  have hBackslash : isAllowed '\\' = true := by decide
  have hQuote : isAllowed Text.singleQuote = true := by decide
  have hLine : ∀ c ∈ lineStart, isAllowed c = true := List.all_eq_true.mp (by decide)
  induction h with
  | nil => simp
  | char hVisible _ _ _ _ ih => exact List.forall_mem_cons.mpr ⟨isAllowed_of_visible hVisible, ih⟩
  | spaces count _ _ ih =>
      refine List.forall_mem_append.mpr ⟨fun c hc => ?_, ih⟩
      rwa [List.eq_of_mem_replicate hc]
  | doubled _ ih =>
      exact List.forall_mem_cons.mpr ⟨hQuote, List.forall_mem_cons.mpr ⟨hQuote, ih⟩⟩
  | lines count _ _ ih =>
      refine List.forall_mem_append.mpr ⟨List.forall_mem_append.mpr ⟨fun c hc => ?_, hLine⟩, ih⟩
      rwa [List.eq_of_mem_replicate hc]
  | letter hVisible _ _ ih =>
      exact List.forall_mem_cons.mpr
        ⟨hBackslash, List.forall_mem_cons.mpr ⟨isAllowed_of_visible hVisible, ih⟩⟩
  | code hVisible _ _ _ _ _ ih =>
      refine List.forall_mem_cons.mpr ⟨hBackslash, ?_⟩
      rw [← List.cons_append]
      exact List.forall_mem_append.mpr ⟨fun d hd => isAllowed_of_visible (hVisible d hd), ih⟩
  | joined _ _ ih =>
      exact List.forall_mem_append.mpr ⟨List.forall_mem_cons.mpr ⟨hBackslash, hLine⟩, ih⟩

end Quotes

section Gaps

variable {cursor : Cursor} {after : List Char} {count : Nat} (hInside : StartsInside after)

include hInside

theorem skipWhile_blanks (hRest : cursor.rest = List.replicate count ' ' ++ after) :
    (cursor.skipWhile fun c => c == ' ' || c == '\t').rest = after := by
  rw [Cursor.skipWhile_rest, hRest]
  exact Text.dropWhile_run (by simp) (hInside.not_blank)

/-- Line ends in a row, and the indentation of the line behind them. -/
theorem quotedBreaks_feeds {indent fuel : Nat}
    (hRest : cursor.rest = List.replicate count '\n' ++ (List.replicate (indent + 1) ' ' ++ after))
    (hFuel : count ≤ fuel) :
    ∃ last, quotedBreaks (fuel + 1) cursor = .ok (List.replicate count '\n', last) ∧
      last.rest = after := by
  induction count generalizing fuel cursor with
  | zero =>
      have hMark : atAnyDocumentMark cursor.rest = false := by
        rw [hRest]
        exact not_anyDocumentMark (by simp [List.replicate_succ]) (by simp [List.replicate_succ])
      have hSkip := skipWhile_blanks hInside hRest
      refine ⟨_, ?_, hSkip⟩
      rw [quotedBreaks, hMark, if_neg (by decide)]
      dsimp only
      rw [Cursor.takeBreak?_of_startsInside hInside hSkip]
      rfl
  | succ count ih =>
      rw [List.replicate_succ, List.cons_append] at hRest
      obtain ⟨fuel, rfl⟩ := Nat.exists_eq_succ_of_ne_zero (Nat.ne_of_gt (Nat.zero_lt_of_lt hFuel))
      have hMark : atAnyDocumentMark cursor.rest = false := by
        rw [hRest]
        exact not_anyDocumentMark (by simp) (by simp)
      have hSkip : (cursor.skipWhile fun c => c == ' ' || c == '\t') = cursor :=
        Cursor.skipWhile_of_not (by simp [hRest])
      obtain ⟨last, hRead, hLast⟩ :=
        ih (Cursor.next_rest_of_cons hRest) (Nat.le_of_succ_le_succ hFuel)
      refine ⟨last, ?_, hLast⟩
      rw [quotedBreaks, hMark, if_neg (by decide)]
      dsimp only
      rw [hSkip, Cursor.takeBreak?_feed hRest]
      dsimp only
      rw [hRead]
      rfl

/-- Spaces inside of a line. -/
theorem quotedSpaces_spaces (hRest : cursor.rest = List.replicate count ' ' ++ after)
    (hMore : after ≠ []) :
    ∃ last, quotedSpaces cursor = .ok (List.replicate count ' ', last) ∧ last.rest = after := by
  have hSkip := skipWhile_blanks hInside hRest
  have hGap : (cursor.rest.takeWhile fun c => c == ' ' || c == '\t') =
      List.replicate count ' ' := by
    rw [hRest]
    exact Text.takeWhile_run (by simp) (hInside.not_blank)
  refine ⟨_, ?_, hSkip⟩
  unfold quotedSpaces
  dsimp only
  rw [Cursor.takeBreak?_of_startsInside hInside hSkip, hGap]
  split
  · rename_i hEnd
    exact absurd (hSkip.symm.trans hEnd) hMore
  · rfl

omit hInside in
/-- The first line end is read by itself. -/
theorem feeds_eq (count : Nat) (after : List Char) :
    List.replicate count '\n' ++ lineStart ++ after =
      '\n' :: (List.replicate count '\n' ++ (List.replicate 2 ' ' ++ after)) := by
  rw [← List.cons_append, ← List.replicate_succ, List.replicate_succ']
  simp [lineStart, Writer.continuationIndent]

/-- Line ends, of which the last one begins the line behind them. -/
theorem quotedSpaces_lines
    (hRest : cursor.rest = List.replicate count '\n' ++ lineStart ++ after) :
    ∃ last, quotedSpaces cursor = .ok (foldBreaks '\n' (List.replicate count '\n'), last) ∧
      last.rest = after := by
  have hFeed := hRest.trans (feeds_eq count after)
  have hSkip : (cursor.skipWhile fun c => c == ' ' || c == '\t') = cursor :=
    Cursor.skipWhile_of_not (by simp [hFeed])
  have hNext := Cursor.next_rest_of_cons hFeed
  have hFuel : count ≤ cursor.next.rest.length := by
    rw [hNext]
    simp
  obtain ⟨last, hRead, hLast⟩ := quotedBreaks_feeds hInside hNext hFuel
  refine ⟨last, ?_, hLast⟩
  unfold quotedSpaces
  dsimp only
  rw [hSkip, Cursor.takeBreak?_feed hFeed]
  split
  · rename_i hEnd
    cases hFeed.symm.trans hEnd
  · dsimp only
    rw [hRead]
    rfl

end Gaps

section Reading

variable {double : Bool} {fuel : Nat} {cursor next last : Cursor} {c : Char}
  {rest gap escaped text : List Char}

theorem isSeparator_quoteOf (double : Bool) : isSeparator (quoteOf double) = false := by
  cases double <;> decide

/-- A run of spaces or line ends, then the rest of the text. -/
theorem quotedText_gap (hRest : cursor.rest = c :: rest) (hc : isSeparator c = true)
    (hGap : quotedSpaces cursor = .ok (gap, next))
    (hMore : quotedText double fuel next = .ok (text, last)) :
    quotedText double (fuel + 1) cursor = .ok (gap ++ text, last) := by
  rw [quotedText]
  simp only [hRest, hc, if_true, hGap, Bind.bind, Except.bind, hMore]
  rfl

/-- A character that stands for itself. -/
theorem quotedText_char (hRest : cursor.rest = c :: rest) (hc : isSeparator c = false)
    (hQuote : c ≠ quoteOf double) (hEscape : double = true → c ≠ '\\')
    (hMore : quotedText double fuel cursor.next = .ok (text, last)) :
    quotedText double (fuel + 1) cursor = .ok (c :: text, last) := by
  have hDoubled : (!double && c == Text.singleQuote && rest.head? == some Text.singleQuote) =
      false := by
    cases double with
    | false => simp [show c ≠ Text.singleQuote from hQuote]
    | true => rfl
  have hBackslash : (double && c == '\\') = false := by
    cases double with
    | false => rfl
    | true => simp [hEscape rfl]
  rw [quotedText]
  simp only [hRest, hc, hDoubled, Bool.false_eq_true, if_false]
  rw [if_neg (by simpa [quoteOf] using hQuote), hBackslash]
  simp only [Bool.false_eq_true, if_false, hMore, Bind.bind, Except.bind]
  rfl

theorem quotedText_close (hRest : cursor.rest = quoteOf double :: rest)
    (hEnd : rest.head? ≠ some Text.singleQuote) :
    quotedText double (fuel + 1) cursor = .ok ([], cursor.next) := by
  have hOnce : (rest.head? == some Text.singleQuote) = false := by simpa using hEnd
  rw [quotedText]
  simp only [hRest, isSeparator_quoteOf, hOnce, Bool.and_false, Bool.false_eq_true, if_false]
  rw [if_pos (by simp [quoteOf])]
  rfl

theorem quotedText_doubled (hRest : cursor.rest = Text.singleQuote :: Text.singleQuote :: rest)
    (hMore : quotedText false fuel (cursor.forward 2) = .ok (text, last)) :
    quotedText false (fuel + 1) cursor = .ok (Text.singleQuote :: text, last) := by
  have hSeparator : isSeparator Text.singleQuote = false := by decide
  rw [quotedText]
  simp only [hRest, hSeparator, hMore, List.head?_cons, BEq.rfl, Bool.not_false, Bool.and_true,
    Bool.false_eq_true, if_false, if_true, Bind.bind, Except.bind]
  rfl

theorem quotedText_escape (hRest : cursor.rest = '\\' :: rest)
    (hEscape : quotedEscape cursor.next = .ok (escaped, next))
    (hMore : quotedText true fuel next = .ok (text, last)) :
    quotedText true (fuel + 1) cursor = .ok (escaped ++ text, last) := by
  have hSeparator : isSeparator '\\' = false := by decide
  have hQuote : ('\\' == Text.doubleQuote) = false := by decide
  rw [quotedText]
  simp only [hRest, hSeparator, hQuote, hEscape, hMore, Bool.not_true, Bool.false_and,
    Bool.false_eq_true, if_false, if_true, Bind.bind, Except.bind]
  rfl

theorem quotedEscape_letter {letter : Char} (hRest : cursor.rest = letter :: rest)
    (hLetter : letterEscape? letter = some c) : quotedEscape cursor = .ok ([c], cursor.next) := by
  unfold quotedEscape
  simp only [hRest, hLetter]

theorem quotedEscape_code {mark : Char} {digits : List Char} {number : Nat}
    (hRest : cursor.rest = mark :: (digits ++ rest)) (hMark : letterEscape? mark = none)
    (hWidth : codeWidth? mark = some digits.length)
    (hNumber : Text.hexNumber? digits = some number) (hChar : characterOf number = .ok c) :
    quotedEscape cursor = .ok ([c], cursor.forward (digits.length + 1)) := by
  unfold quotedEscape
  simp only [hRest, hMark, hWidth, List.take_left, hNumber, hChar, if_true]
  rfl

theorem quotedEscape_lineStart (hInside : StartsInside rest)
    (hRest : cursor.rest = lineStart ++ rest) :
    ∃ last, quotedEscape cursor = .ok ([], last) ∧ last.rest = rest := by
  have hFeed : cursor.rest = '\n' :: (List.replicate 2 ' ' ++ rest) := hRest
  have hNext : cursor.next.rest = List.replicate 0 '\n' ++ (List.replicate 2 ' ' ++ rest) :=
    Cursor.next_rest_of_cons hFeed
  obtain ⟨last, hRead, hLast⟩ := quotedBreaks_feeds hInside hNext (Nat.zero_le _)
  have hLetter : letterEscape? '\n' = none := by decide
  have hWidth : codeWidth? '\n' = none := by decide
  refine ⟨last, ?_, hLast⟩
  unfold quotedEscape
  rw [Cursor.takeBreak?_feed hFeed]
  simp only [hFeed, hLetter, hWidth]
  exact hRead

/-- A text in quotes is read up to its closing quote as what it stands for. Each turn of the
reader takes one rule of the grammar. -/
theorem quotedText_of_quotes {written after : List Char} (h : Quotes double written text)
    (hRest : cursor.rest = written ++ quoteOf double :: after)
    (hEnd : after.head? ≠ some Text.singleQuote) (hFuel : written.length ≤ fuel) :
    ∃ last, quotedText double (fuel + 1) cursor = .ok (text, last) ∧ last.rest = after := by
  have hClosed {double : Bool} {written : List Char} (h : StartsInside written) :
      StartsInside (written ++ quoteOf double :: after) :=
    h.append (startsInside_cons.mpr (isSeparator_quoteOf double))
  induction h generalizing fuel cursor with
  | nil => exact ⟨_, quotedText_close hRest hEnd, Cursor.next_rest_of_cons hRest⟩
  | char hVisible hSpace hQuote hEscape more ih =>
      obtain ⟨left, rfl⟩ := Nat.exists_eq_add_of_lt hFuel
      obtain ⟨last, hRead, hLast⟩ := ih (Cursor.next_rest_of_cons hRest) (Nat.le_add_right ..)
      have hSeparator := isSeparator_of_visible hVisible hSpace
      exact ⟨last, quotedText_char hRest hSeparator hQuote hEscape hRead, hLast⟩
  | @spaces _ written _ count hInside more ih =>
      have hMore : written.length < fuel := by
        simp at hFuel
        omega
      obtain ⟨left, rfl⟩ := Nat.exists_eq_add_of_lt hMore
      rw [List.append_assoc] at hRest
      obtain ⟨next, hGap, hNext⟩ := quotedSpaces_spaces (hClosed hInside) hRest (by simp)
      obtain ⟨last, hRead, hLast⟩ := ih hNext (Nat.le_add_right ..)
      exact ⟨last, quotedText_gap hRest rfl hGap hRead, hLast⟩
  | @doubled written _ more ih =>
      have hMore : written.length < fuel := by
        simp at hFuel
        omega
      obtain ⟨left, rfl⟩ := Nat.exists_eq_add_of_lt hMore
      have hNext : (cursor.forward 2).rest = written ++ quoteOf false :: after := by
        rw [Cursor.forward_rest, hRest]
        rfl
      obtain ⟨last, hRead, hLast⟩ := ih hNext (Nat.le_add_right ..)
      exact ⟨last, quotedText_doubled hRest hRead, hLast⟩
  | @lines written _ count hInside more ih =>
      have hMore : written.length < fuel := by
        simp [lineStart] at hFuel
        omega
      obtain ⟨left, rfl⟩ := Nat.exists_eq_add_of_lt hMore
      rw [List.append_assoc] at hRest
      obtain ⟨next, hGap, hNext⟩ := quotedSpaces_lines (hClosed hInside) hRest
      obtain ⟨last, hRead, hLast⟩ := ih hNext (Nat.le_add_right ..)
      exact ⟨last, quotedText_gap (hRest.trans (feeds_eq count _)) rfl hGap hRead, hLast⟩
  | @letter _ _ written _ hVisible hLetter more ih =>
      have hMore : written.length < fuel := by
        simp at hFuel
        omega
      obtain ⟨left, rfl⟩ := Nat.exists_eq_add_of_lt hMore
      have hNext := Cursor.next_rest_of_cons hRest
      have hEscape := quotedEscape_letter hNext hLetter
      obtain ⟨last, hRead, hLast⟩ := ih (Cursor.next_rest_of_cons hNext) (Nat.le_add_right ..)
      exact ⟨last, quotedText_escape hRest hEscape hRead, hLast⟩
  | @code _ _ digits written _ _ hVisible hMark hWidth hNumber hChar more ih =>
      have hMore : written.length < fuel := by
        simp at hFuel
        omega
      obtain ⟨left, rfl⟩ := Nat.exists_eq_add_of_lt hMore
      rw [List.cons_append, List.cons_append, List.append_assoc] at hRest
      have hNext := Cursor.next_rest_of_cons hRest
      have hEscape := quotedEscape_code hNext hMark hWidth hNumber hChar
      have hBehind : (cursor.next.forward (digits.length + 1)).rest =
          written ++ quoteOf true :: after := by
        rw [Cursor.forward_rest, hNext, List.drop_succ_cons, List.drop_left]
      obtain ⟨last, hRead, hLast⟩ := ih hBehind (Nat.le_add_right ..)
      exact ⟨last, quotedText_escape hRest hEscape hRead, hLast⟩
  | @joined written _ hInside more ih =>
      have hMore : written.length < fuel := by
        simp at hFuel
        omega
      obtain ⟨left, rfl⟩ := Nat.exists_eq_add_of_lt hMore
      rw [List.append_assoc, List.cons_append] at hRest
      have hFeed := Cursor.next_rest_of_cons hRest
      obtain ⟨next, hEscape, hNext⟩ := quotedEscape_lineStart (hClosed hInside) hFeed
      obtain ⟨last, hRead, hLast⟩ := ih hNext (Nat.le_add_right ..)
      exact ⟨last, quotedText_escape hRest hEscape hRead, hLast⟩

/-- A scalar in quotes is what its characters stand for. -/
theorem quotedScalar_of_quotes {written after : List Char} (h : Quotes double written text)
    (hRest : cursor.rest = quoteOf double :: (written ++ quoteOf double :: after))
    (hEnd : after.head? ≠ some Text.singleQuote) :
    ∃ last, quotedScalar double cursor = .ok (String.ofList text, last) ∧ last.rest = after := by
  have hFuel : written.length ≤ cursor.rest.length := by
    rw [hRest]
    simp
    omega
  obtain ⟨last, hRead, hLast⟩ :=
    quotedText_of_quotes h (Cursor.next_rest_of_cons hRest) hEnd hFuel
  refine ⟨last, ?_, hLast⟩
  rw [quotedScalar, hRead]
  rfl

end Reading

end SchemaModels.Yaml
