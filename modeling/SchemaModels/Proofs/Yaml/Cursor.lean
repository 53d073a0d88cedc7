import SchemaModels.Proofs.Text.Character
import SchemaModels.Yaml.Cursor

/-!
Moving in a text. Past characters of a line only the column and the index change, and
behind a line feed the next line begins.
-/
namespace SchemaModels.Yaml

open Text (IsVisibleAscii)

/-- A character that separates nothing and takes one column. -/
def IsInline (c : Char) : Prop := isBreak c = false ∧ c.toNat ≠ 0xfeff

instance (c : Char) : Decidable (IsInline c) := instDecidableAnd

theorem isBreak_of_isSeparator {c : Char} (h : isSeparator c = false) : isBreak c = false := by
  simp only [isSeparator, Bool.or_eq_false_iff] at h
  exact h.2

section Visible

variable {c : Char} (h : IsVisibleAscii c)

include h

theorem isBreak_of_visible : isBreak c = false := by
  have ⟨_, hHigh⟩ := h
  simp only [isBreak, Bool.or_eq_false_iff, beq_eq_false_iff_ne]
  exact ⟨⟨⟨⟨h.ne (by decide), h.ne (by decide)⟩, by omega⟩, by omega⟩, by omega⟩

theorem isSeparator_of_visible (hSpace : c ≠ ' ') : isSeparator c = false := by
  simp only [isSeparator, Bool.or_eq_false_iff, beq_eq_false_iff_ne]
  exact ⟨⟨hSpace, h.ne (by decide)⟩, isBreak_of_visible h⟩

theorem isInline_of_visible : IsInline c := by
  have ⟨_, hHigh⟩ := h
  exact ⟨isBreak_of_visible h, by omega⟩

theorem isAllowed_of_visible : isAllowed c = true := by
  have ⟨hLow, hHigh⟩ := h
  simp [isAllowed]
  omega

end Visible

theorem ne_space_of_isSeparator {c : Char} (h : isSeparator c = false) : c ≠ ' ' := by
  rintro rfl
  cases h

/-- Text in front of which a run of blanks and line ends is over. -/
def StartsInside (chars : List Char) : Prop := ∀ c ∈ chars.head?, isSeparator c = false

@[simp] theorem startsInside_nil : StartsInside [] := by simp [StartsInside]

@[simp] theorem startsInside_cons {c : Char} {rest : List Char} :
    StartsInside (c :: rest) ↔ isSeparator c = false := by simp [StartsInside]

theorem StartsInside.append {chars more : List Char} (h : StartsInside chars)
    (hMore : StartsInside more) : StartsInside (chars ++ more) := by
  cases chars with
  | nil => exact hMore
  | cons c chars => simpa using h

theorem StartsInside.not_blank {chars : List Char} (h : StartsInside chars) :
    ∀ c ∈ chars.head?, (c == ' ' || c == '\t') = false := by
  intro c hc
  have hc := h c hc
  simp only [isSeparator, Bool.or_eq_false_iff] at hc
  simp [hc.1.1, hc.1.2]

theorem not_documentMark {mark c : Char} {rest : List Char} (h : c ≠ mark) :
    atDocumentMark mark (c :: rest) = false := by
  unfold atDocumentMark
  split
  · rename_i hChars
    obtain ⟨rfl, -⟩ := List.cons.inj hChars
    simp [h]
  · rfl

/-- Only a text that begins with a hyphen or a point can begin with a mark between
documents. -/
theorem not_anyDocumentMark {chars : List Char} (hHyphen : chars.head? ≠ some '-')
    (hPoint : chars.head? ≠ some '.') : atAnyDocumentMark chars = false := by
  cases chars with
  | nil => rfl
  | cons c rest =>
      rw [atAnyDocumentMark, not_documentMark (by simpa using hHyphen),
        not_documentMark (by simpa using hPoint)]
      rfl

namespace Cursor

variable {cursor : Cursor} {before after : List Char}

@[simp] theorem next_rest (cursor : Cursor) : cursor.next.rest = cursor.rest.tail := by
  unfold next
  split
  · rename_i h
    simp [h]
  · rename_i h
    rw [h, List.tail_cons]
    split_ifs <;> rfl

theorem next_rest_of_cons {c : Char} {rest : List Char} (h : cursor.rest = c :: rest) :
    cursor.next.rest = rest := by
  rw [next_rest, h, List.tail_cons]

@[simp] theorem forward_rest (cursor : Cursor) (count : Nat) :
    (cursor.forward count).rest = cursor.rest.drop count := by
  induction count generalizing cursor with
  | zero => rfl
  | succ count ih => rw [forward, ih, next_rest, List.drop_tail]

@[simp] theorem skipWhile_rest (cursor : Cursor) (p : Char → Bool) :
    (cursor.skipWhile p).rest = cursor.rest.dropWhile p := by
  rw [skipWhile, forward_rest]
  have hDrop : (cursor.rest.takeWhile p ++ cursor.rest.dropWhile p).drop
      (cursor.rest.takeWhile p).length = cursor.rest.dropWhile p := List.drop_left
  rwa [List.takeWhile_append_dropWhile] at hDrop

theorem skipWhile_of_not {p : Char → Bool} (h : ∀ c ∈ cursor.rest.head?, p c = false) :
    cursor.skipWhile p = cursor := by
  cases hRest : cursor.rest with
  | nil => simp [skipWhile, hRest, forward]
  | cons c rest => simp [skipWhile, hRest, forward, h c (by simp [hRest])]

/-- Past characters of a line. -/
theorem forward_inline (hRest : cursor.rest = before ++ after)
    (hInline : ∀ c ∈ before, IsInline c) :
    cursor.forward before.length =
      ⟨after, cursor.index + before.length, cursor.line, cursor.column + before.length⟩ := by
  induction before generalizing cursor with
  | nil =>
      obtain ⟨rest, index, line, column⟩ := cursor
      obtain rfl : rest = after := hRest
      rfl
  | cons c before ih =>
      obtain ⟨⟨hBreak, hMark⟩, hBefore⟩ := List.forall_mem_cons.mp hInline
      have hNext : cursor.next =
          ⟨before ++ after, cursor.index + 1, cursor.line, cursor.column + 1⟩ := by
        simp [next, hRest, hBreak, hMark]
      have hNextRest : cursor.next.rest = before ++ after := by rw [hNext]
      rw [List.length_cons, forward, ih hNextRest hBefore, hNext]
      simp only [Cursor.mk.injEq, true_and]
      omega

theorem next_feed (hRest : cursor.rest = '\n' :: after) :
    cursor.next = ⟨after, cursor.index + 1, cursor.line + 1, 0⟩ := by
  unfold next
  rw [hRest]
  rfl

theorem takeBreak?_feed (hRest : cursor.rest = '\n' :: after) :
    cursor.takeBreak? = some ('\n', cursor.next) := by
  unfold takeBreak?
  rw [hRest]
  rfl

theorem takeBreak?_eq_none (h : ∀ c ∈ cursor.rest.head?, isBreak c = false) :
    cursor.takeBreak? = none := by
  unfold takeBreak?
  split
  · rename_i hRest
    have hReturn := h '\r' (by simp [hRest])
    cases hReturn
  · rename_i c rest _ hRest
    rw [h c (by simp [hRest])]
    rfl
  · rfl

theorem takeBreak?_of_startsInside (h : StartsInside after) (hRest : cursor.rest = after) :
    cursor.takeBreak? = none :=
  takeBreak?_eq_none fun c hc => isBreak_of_isSeparator (h c (hRest ▸ hc))

end Cursor
end SchemaModels.Yaml
