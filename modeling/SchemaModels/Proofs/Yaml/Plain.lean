import SchemaModels.Proofs.Yaml.Cursor
import SchemaModels.Yaml.Scalar
import SchemaModels.Yaml.Writer

/-!
Plain scalars. `Plain` is the grammar of their pieces and of what stands between them,
with the text that they stand for. A plain scalar ends with its line if the next line is
not indented, and in front of a colon and a space.
-/
namespace SchemaModels.Yaml

open Text (IsVisibleAscii)
open Writer (lineStart)

/-- A piece of a plain scalar. -/
structure IsPiece (piece : List Char) : Prop where
  nonempty : piece ≠ []
  visible : ∀ c ∈ piece, IsVisibleAscii c
  spaceless : ' ' ∉ piece
  head : piece.head? ≠ some '#'
  last : piece.getLast? ≠ some ':'

/-- What is written as a plain scalar, and the text that it stands for. -/
inductive Plain : List Char → List Char → Prop where
  | last {piece : List Char} (hPiece : IsPiece piece) : Plain piece piece
  | spaced {piece written text : List Char} (count : Nat) (hPiece : IsPiece piece)
      (more : Plain written text) :
      Plain (piece ++ (List.replicate (count + 1) ' ' ++ written))
        (piece ++ (List.replicate (count + 1) ' ' ++ text))
  /-- A single space may be written as a line end. -/
  | folded {piece written text : List Char} (hPiece : IsPiece piece) (more : Plain written text) :
      Plain (piece ++ (lineStart ++ written)) (piece ++ ([' '] ++ text))

theorem IsPiece.inside {piece : List Char} (h : IsPiece piece) :
    ∀ c ∈ piece, isSeparator c = false := fun c hc =>
  isSeparator_of_visible (h.visible c hc) fun hSpace => h.spaceless (hSpace ▸ hc)

theorem IsPiece.length_pos {piece : List Char} (h : IsPiece piece) : 0 < piece.length :=
  List.length_pos_of_ne_nil h.nonempty

/-- What stands at the beginning of a piece. -/
theorem IsPiece.head_append {piece : List Char} (h : IsPiece piece) (more : List Char) :
    (piece ++ more).head? = piece.head? := by
  rw [List.head?_append_of_ne_nil piece h.nonempty]

namespace Plain

variable {written text : List Char}

/-- A plain scalar begins with a piece, and so does its text. -/
theorem exists_piece (h : Plain written text) : ∃ piece written' text', IsPiece piece ∧
    written = piece ++ written' ∧ text = piece ++ text' ∧ endsOr isSeparator text' = true := by
  cases h with
  | last hPiece => exact ⟨_, [], [], hPiece, by simp, by simp, rfl⟩
  | spaced count hPiece more => exact ⟨_, _, _, hPiece, rfl, rfl, rfl⟩
  | folded hPiece more => exact ⟨_, _, _, hPiece, rfl, rfl, rfl⟩

theorem startsInside (h : Plain written text) : StartsInside written := by
  obtain ⟨piece, more, _, hPiece, rfl, -⟩ := h.exists_piece
  intro c hc
  rw [hPiece.head_append] at hc
  exact hPiece.inside c (List.mem_of_mem_head? hc)

theorem head_ne (h : Plain written text) : written.head? ≠ some '#' := by
  obtain ⟨piece, more, _, hPiece, rfl, -⟩ := h.exists_piece
  rw [hPiece.head_append]
  exact hPiece.head

theorem written_ne_nil (h : Plain written text) : written ≠ [] := by
  obtain ⟨piece, more, _, hPiece, rfl, -⟩ := h.exists_piece
  simp [hPiece.nonempty]

theorem text_ne_nil (h : Plain written text) : text ≠ [] := by
  obtain ⟨piece, _, more, hPiece, -, rfl, -⟩ := h.exists_piece
  simp [hPiece.nonempty]

/-- All that is written in a plain scalar is allowed in a text. -/
theorem allowed (h : Plain written text) : ∀ c ∈ written, isAllowed c = true := by
  have hBlank : isAllowed ' ' = true := by decide
  have hLine : ∀ c ∈ lineStart, isAllowed c = true := List.all_eq_true.mp (by decide)
  have hPieces {piece : List Char} (h : IsPiece piece) : ∀ c ∈ piece, isAllowed c = true :=
    fun c hc => isAllowed_of_visible (h.visible c hc)
  induction h with
  | last hPiece => exact hPieces hPiece
  | spaced count hPiece more ih =>
      refine List.forall_mem_append.mpr ⟨hPieces hPiece, List.forall_mem_append.mpr ⟨?_, ih⟩⟩
      intro c hc
      rwa [List.eq_of_mem_replicate hc]
  | folded hPiece more ih =>
      exact List.forall_mem_append.mpr ⟨hPieces hPiece, List.forall_mem_append.mpr ⟨hLine, ih⟩⟩

end Plain

section Spaces

variable {cursor : Cursor} {after : List Char} (hInside : StartsInside after)

include hInside

theorem takeWhile_spaces {count : Nat} (hRest : cursor.rest = List.replicate count ' ' ++ after) :
    cursor.rest.takeWhile (· == ' ') = List.replicate count ' ' := by
  rw [hRest]
  refine Text.takeWhile_run (by simp) fun c hc => ?_
  have hBlank := hInside.not_blank c hc
  rw [Bool.or_eq_false_iff] at hBlank
  exact hBlank.1

theorem skipWhile_spaces {count : Nat} (hRest : cursor.rest = List.replicate count ' ' ++ after) :
    cursor.skipWhile (· == ' ') =
      ⟨after, cursor.index + count, cursor.line, cursor.column + count⟩ := by
  have hBlanks : ∀ c ∈ List.replicate count ' ', IsInline c := by
    intro c hc
    rw [List.eq_of_mem_replicate hc]
    decide
  rw [Cursor.skipWhile, takeWhile_spaces hInside hRest, Cursor.forward_inline hRest hBlanks,
    List.length_replicate]

/-- Spaces inside of a line are kept. Without any there is no further piece. -/
theorem plainSpaces_spaces (count : Nat) (hRest : cursor.rest = List.replicate count ' ' ++ after) :
    plainSpaces cursor = (if count = 0 then none else some (List.replicate count ' '), false,
      ⟨after, cursor.index + count, cursor.line, cursor.column + count⟩) := by
  unfold plainSpaces
  rw [takeWhile_spaces hInside hRest, skipWhile_spaces hInside hRest]
  dsimp only
  rw [Cursor.takeBreak?_of_startsInside hInside rfl]
  simp

/-- A line end and the indentation of the next line stand for a space. -/
theorem plainSpaces_feed (indent : Nat)
    (hRest : cursor.rest = '\n' :: (List.replicate indent ' ' ++ after))
    (hMark : atAnyDocumentMark (List.replicate indent ' ' ++ after) = false) :
    plainSpaces cursor =
      (some [' '], true, ⟨after, cursor.index + 1 + indent, cursor.line + 1, indent⟩) := by
  have hSkip : cursor.skipWhile (· == ' ') = cursor := Cursor.skipWhile_of_not (by simp [hRest])
  have hNext := Cursor.next_feed hRest
  have hBreaks : plainBreaks (cursor.next.rest.length + 1) cursor.next =
      (some [], ⟨after, cursor.index + 1 + indent, cursor.line + 1, indent⟩) := by
    rw [plainBreaks, hNext, hMark, if_neg (by decide), skipWhile_spaces hInside rfl]
    dsimp only
    rw [Cursor.takeBreak?_of_startsInside hInside rfl, Nat.zero_add]
  unfold plainSpaces
  dsimp only
  rw [hSkip, Cursor.takeBreak?_feed hRest]
  dsimp only
  rw [hBreaks]
  rfl

end Spaces

/-- A piece is read up to where it ends. -/
theorem plainLength_append {piece rest : List Char} (hInside : ∀ c ∈ piece, isSeparator c = false)
    (hLast : piece.getLast? ≠ some ':') (hEnd : endsPlain false rest = true) :
    plainLength false (piece ++ rest) = piece.length := by
  induction piece with
  | nil =>
      cases rest with
      | nil => rfl
      | cons c rest => simp [plainLength, hEnd]
  | cons c piece ih =>
      obtain ⟨hc, hPiece⟩ := List.forall_mem_cons.mp hInside
      have hOn : endsPlain false (c :: (piece ++ rest)) = false := by
        cases piece with
        | nil => simp_all [endsPlain]
        | cons d piece => simp [endsPlain, endsOr, hc, hPiece d (List.mem_cons_self ..)]
      have hLater : piece.getLast? ≠ some ':' := by
        cases piece with
        | nil => simp
        | cons d piece => simpa using hLast
      rw [List.cons_append, plainLength, hOn, ih hPiece hLater]
      rfl

section Reading

variable {fuel : Nat} {cursor next last : Cursor} {indent : Int} {piece rest gap text : List Char}
  {ended endedLater : Bool}

section Piece

variable (hPiece : IsPiece piece) (hRest : cursor.rest = piece ++ rest)
  (hEnd : endsPlain false rest = true)

include hPiece hRest hEnd

/-- What a turn reads before anything behind the piece counts. -/
theorem readsPiece : (cursor.rest.head? == some '#') = false ∧
    plainLength false cursor.rest = piece.length ∧ cursor.rest.take piece.length = piece := by
  rw [hRest, hPiece.head_append, plainLength_append hPiece.inside hPiece.last hEnd]
  exact ⟨by simpa using hPiece.head, rfl, List.take_left⟩

/-- Nothing stands behind a piece that may lead to another one. -/
theorem plainText_none (hSpaces : plainSpaces (cursor.forward piece.length) = (none, ended, next)) :
    plainText false indent (fuel + 1) cursor = (piece, ended, next) := by
  obtain ⟨hHead, hLength, hTake⟩ := readsPiece hPiece hRest hEnd
  rw [plainText]
  simp only [hHead, Bool.false_eq_true, if_false, hLength, hTake, hSpaces, hPiece.length_pos.ne']

/-- A line that is not indented ends a scalar. -/
theorem plainText_outside
    (hSpaces : plainSpaces (cursor.forward piece.length) = (some gap, ended, next))
    (hColumn : (next.column : Int) < indent) :
    plainText false indent (fuel + 1) cursor = (piece, ended, next) := by
  obtain ⟨hHead, hLength, hTake⟩ := readsPiece hPiece hRest hEnd
  rw [plainText]
  simp only [hHead, Bool.false_eq_true, if_false, hLength, hTake, hSpaces, hPiece.length_pos.ne']
  rw [if_pos (by simp [hColumn])]

theorem plainText_more
    (hSpaces : plainSpaces (cursor.forward piece.length) = (some gap, ended, next))
    (hComment : next.rest.head? ≠ some '#') (hColumn : indent ≤ next.column)
    (hMore : plainText false indent fuel next = (text, endedLater, last)) (hText : text ≠ []) :
    plainText false indent (fuel + 1) cursor = (piece ++ gap ++ text, endedLater, last) := by
  obtain ⟨hHead, hLength, hTake⟩ := readsPiece hPiece hRest hEnd
  rw [plainText]
  simp only [hHead, Bool.false_eq_true, if_false, hLength, hTake, hSpaces, hPiece.length_pos.ne']
  rw [if_neg (by simp [hComment, hColumn]), hMore, if_neg (by simp [hText])]

end Piece

/-- Behind a piece. -/
theorem forward_piece (hPiece : IsPiece piece) (hRest : cursor.rest = piece ++ rest) :
    cursor.forward piece.length =
      ⟨rest, cursor.index + piece.length, cursor.line, cursor.column + piece.length⟩ :=
  Cursor.forward_inline hRest fun c hc => isInline_of_visible (hPiece.visible c hc)

/-- A scalar in front of a colon and a space is one piece, whatever its line is part of. -/
theorem plainText_key (hPiece : IsPiece piece) (hRest : cursor.rest = piece ++ ':' :: ' ' :: rest) :
    plainText false indent (fuel + 1) cursor =
      (piece, false, ⟨':' :: ' ' :: rest, cursor.index + piece.length, cursor.line,
        cursor.column + piece.length⟩) := by
  refine plainText_none hPiece hRest rfl ?_
  rw [forward_piece hPiece hRest]
  exact plainSpaces_spaces (startsInside_cons.mpr rfl) 0 rfl

/-- Spaces behind a piece. -/
theorem exists_spaces (hPiece : IsPiece piece) {count : Nat}
    (hRest : cursor.rest = piece ++ (List.replicate (count + 1) ' ' ++ rest))
    (hInside : StartsInside rest) :
    ∃ next, plainSpaces (cursor.forward piece.length) =
        (some (List.replicate (count + 1) ' '), false, next) ∧
      next.rest = rest ∧ 0 < next.column := by
  rw [forward_piece hPiece hRest, plainSpaces_spaces hInside (count + 1) rfl]
  exact ⟨_, rfl, rfl, Nat.succ_pos _⟩

/-- A line end behind a piece. -/
theorem exists_feed (hPiece : IsPiece piece) (indent : Nat)
    (hRest : cursor.rest = piece ++ '\n' :: (List.replicate indent ' ' ++ rest))
    (hInside : StartsInside rest)
    (hMark : atAnyDocumentMark (List.replicate indent ' ' ++ rest) = false) :
    ∃ next, plainSpaces (cursor.forward piece.length) = (some [' '], true, next) ∧
      next.rest = rest ∧ next.column = indent := by
  rw [forward_piece hPiece hRest, plainSpaces_feed hInside indent rfl hMark]
  exact ⟨_, rfl, rfl, rfl⟩

/-- A scalar is read up to the next line, as what it stands for. -/
theorem plainText_of_plain {written after : List Char} (h : Plain written text)
    (hRest : cursor.rest = written ++ '\n' :: after) (hAfter : StartsInside after)
    (hMark : atAnyDocumentMark after = false) (hFuel : written.length ≤ fuel) :
    ∃ last, plainText false 1 (fuel + 1) cursor = (text, true, last) ∧ last.rest = after ∧
      last.column = 0 := by
  have hHead {written text : List Char} (h : Plain written text) :
      (written ++ '\n' :: after).head? = written.head? :=
    List.head?_append_of_ne_nil written h.written_ne_nil
  have hInside {written text : List Char} (h : Plain written text) :
      StartsInside (written ++ '\n' :: after) := by
    rw [StartsInside, hHead h]
    exact h.startsInside
  have hComment {written text : List Char} (h : Plain written text) :
      (written ++ '\n' :: after).head? ≠ some '#' := by
    rw [hHead h]
    exact h.head_ne
  induction h generalizing fuel cursor with
  | @last piece hPiece =>
      obtain ⟨next, hSpaces, hNext, hColumn⟩ := exists_feed hPiece 0 hRest hAfter hMark
      exact ⟨next, plainText_outside hPiece hRest rfl hSpaces (by omega), hNext, hColumn⟩
  | @spaced piece written text count hPiece more ih =>
      have hMore : written.length < fuel := by
        simp at hFuel
        omega
      obtain ⟨left, rfl⟩ := Nat.exists_eq_add_of_lt hMore
      rw [List.append_assoc, List.append_assoc] at hRest
      obtain ⟨next, hSpaces, hNext, hColumn⟩ := exists_spaces hPiece hRest (hInside more)
      obtain ⟨last, hRead, hLast⟩ := ih hNext (Nat.le_add_right ..)
      refine ⟨last, ?_, hLast⟩
      rw [← List.append_assoc]
      exact plainText_more hPiece hRest rfl hSpaces (hNext ▸ hComment more) (by omega) hRead
        more.text_ne_nil
  | @folded piece written text hPiece more ih =>
      have hMore : written.length < fuel := by
        simp [lineStart] at hFuel
        omega
      obtain ⟨left, rfl⟩ := Nat.exists_eq_add_of_lt hMore
      rw [List.append_assoc, List.append_assoc] at hRest
      have hLine : atAnyDocumentMark (List.replicate 2 ' ' ++ (written ++ '\n' :: after)) = false :=
        not_anyDocumentMark (by simp [List.replicate_succ]) (by simp [List.replicate_succ])
      obtain ⟨next, hSpaces, hNext, hColumn⟩ := exists_feed hPiece 2 hRest (hInside more) hLine
      obtain ⟨last, hRead, hLast⟩ := ih hNext (Nat.le_add_right ..)
      refine ⟨last, ?_, hLast⟩
      rw [← List.append_assoc]
      exact plainText_more hPiece hRest rfl hSpaces (hNext ▸ hComment more) (by omega) hRead
        more.text_ne_nil

end Reading

end SchemaModels.Yaml
