import SchemaModels.Proofs.Graphql.Rewriting
import SchemaModels.Proofs.Text.Newline

/-!
The tokens of a text with every line end written as one line feed. Line ends are
seen in no token but a block text, which is split at all of them.
-/
namespace SchemaModels

namespace Text

open Graphql.Lexer (isLineEnd)

theorem ne_return_of_isLineEnd {c : Char} (h : isLineEnd c = false) : c ≠ '\r' := by
  rintro rfl
  cases h

/-- One line is left as it is. -/
theorem unifyNewlines_append {front : List Char} (h : ∀ c ∈ front, isLineEnd c = false)
    (rest : List Char) : unifyNewlines (front ++ rest) = front ++ unifyNewlines rest := by
  induction front with
  | nil => rfl
  | cons c front ih =>
      rw [List.forall_mem_cons] at h
      rw [List.cons_append, unifyNewlines_cons (ne_return_of_isLineEnd h.1), ih h.2,
        List.cons_append]

/-- Where a line begins the text with unified line ends, it begins the text itself. -/
theorem exists_of_unifyNewlines_eq {chars front rest : List Char}
    (hFront : ∀ c ∈ front, isLineEnd c = false) (h : unifyNewlines chars = front ++ rest) :
    ∃ other, chars = front ++ other ∧ unifyNewlines other = rest := by
  induction front generalizing chars with
  | nil => exact ⟨chars, rfl, h⟩
  | cons c front ih =>
      rw [List.forall_mem_cons] at hFront
      have hFeed : '\n' ≠ c := by
        rintro rfl
        cases hFront.1
      fun_cases unifyNewlines chars with
      | case1 => cases h
      | case2 after =>
          rw [unifyNewlines] at h
          exact (hFeed (List.cons.inj h).1).elim
      | case3 after hNext =>
          rw [unifyNewlines_return hNext] at h
          exact (hFeed (List.cons.inj h).1).elim
      | case4 d after _ hReturn =>
          rw [unifyNewlines_cons hReturn] at h
          obtain ⟨rfl, hRest⟩ := List.cons.inj h
          obtain ⟨other, rfl, hOther⟩ := ih hFront.2 hRest
          exact ⟨other, rfl, hOther⟩

end Text

namespace Graphql.Lexer

open Text (unifyNewlines unifyNewlines_cons unifyNewlines_append exists_of_unifyNewlines_eq)

theorem skipIgnored_unifyNewlines (inComment : Bool) (chars : List Char) :
    skipIgnored inComment (unifyNewlines chars) = unifyNewlines (skipIgnored inComment chars) := by
  fun_induction unifyNewlines chars generalizing inComment with
  | case1 => rfl
  | case2 after ih => cases inComment <;> exact ih false
  | case3 after hNext ih => cases inComment <;> exact ih false
  | case4 c after _ hReturn ih =>
      simp only [skipIgnored]
      split
      · exact ih _
      split
      · exact ih true
      split
      · exact ih false
      · exact (unifyNewlines_cons hReturn after).symm

/-- The next token does not begin with a line end. -/
theorem not_isLineEnd_of_skipIgnored {inComment : Bool} {chars rest : List Char} {c : Char}
    (h : skipIgnored inComment chars = c :: rest) : isLineEnd c = false := by
  fun_induction skipIgnored inComment chars with
  | case1 => cases h
  | case2 _ _ ih => exact ih h
  | case3 _ _ _ ih => exact ih h
  | case4 _ _ _ _ _ _ ih => exact ih h
  | case5 _ d after _ _ hIgnored =>
      obtain ⟨rfl, -⟩ := List.cons.inj h
      rw [isIgnored, Bool.or_eq_true, not_or] at hIgnored
      simpa using hIgnored.2

theorem mapPiece_map {α β : Type} (f : α → β) (g : List Char → List Char) (piece : Piece α) :
    mapPiece f (piece.map fun p => (p.1, g p.2)) = (mapPiece f piece).map fun p => (p.1, g p.2) := by
  cases piece with
  | ok p => rfl
  | error e => rfl

theorem readBlockLines_feed (rest : List Char) :
    readBlockLines ('\n' :: rest) = mapPiece ([] :: ·) (readBlockLines rest) := by
  rw [readBlockLines]
  · rfl
  all_goals simp

/-- A block text has the same lines, whichever line ends separate them. -/
theorem readBlockLines_unifyNewlines (chars : List Char) :
    readBlockLines (unifyNewlines chars) =
      (readBlockLines chars).map fun p => (p.1, unifyNewlines p.2) := by
  fun_induction readBlockLines chars with
  | case1 => rfl
  | case2 rest => rfl
  | case3 rest ih =>
      have hQuotes : unifyNewlines ('\\' :: '\x22' :: '\x22' :: '\x22' :: rest) =
          '\\' :: '\x22' :: '\x22' :: '\x22' :: unifyNewlines rest := rfl
      rw [hQuotes, readBlockLines, ih, mapPiece_map]
  | case4 rest ih =>
      have hFeed : unifyNewlines ('\r' :: '\n' :: rest) = '\n' :: unifyNewlines rest := rfl
      rw [hFeed, readBlockLines_feed, ih, mapPiece_map]
  | case5 c rest hClose hQuotes hBoth ih =>
      -- a carriage return on its own becomes a line feed, all other characters stay
      by_cases hReturn : c = '\r'
      · subst hReturn
        rw [Text.unifyNewlines_return fun after => hBoth after rfl, readBlockLines_feed, ih,
          mapPiece_map]
        rfl
      · rw [unifyNewlines_cons hReturn, readBlockLines, ih, mapPiece_map]
        · intro after hQuote hRest
          obtain ⟨more, rfl, -⟩ := exists_of_unifyNewlines_eq
            (by simp [isLineEnd] : ∀ d ∈ ['\x22', '\x22'], isLineEnd d = false) hRest
          exact hClose more hQuote rfl
        · intro after hBackslash hRest
          obtain ⟨more, rfl, -⟩ := exists_of_unifyNewlines_eq
            (by simp [isLineEnd] : ∀ d ∈ ['\x22', '\x22', '\x22'], isLineEnd d = false) hRest
          exact hQuotes more hBackslash rfl
        · exact fun _ hc _ => hReturn hc

/-- Unifying the line ends of a text. -/
theorem rewriting_unifyNewlines : Rewriting fun chars written => unifyNewlines chars = written where
  line hFront hWritten := ⟨_, hWritten.symm.trans (unifyNewlines_append hFront _), rfl⟩
  mayReplace {rest other} hOther := by
    subst hOther
    intro c hc
    rcases Text.head?_unifyNewlines rest with hSame | ⟨hFeed, -⟩
    · exact Or.inl (hSame ▸ hc)
    · rw [hFeed] at hc
      cases hc
      exact Or.inr rfl
  blockLines {chars written rest lines} hWritten h := by
    subst hWritten
    exact ⟨_, by rw [readBlockLines_unifyNewlines, h]; rfl, rfl⟩
  skip {chars written rest c} hWritten h := by
    subst hWritten
    refine ⟨_, ?_, rfl⟩
    have hLine := Text.ne_return_of_isLineEnd (not_isLineEnd_of_skipIgnored h)
    rw [skipIgnored_unifyNewlines, h, unifyNewlines_cons hLine]

/-- A text with unified line ends, written with any others. -/
theorem rewriting_of_unifyNewlines :
    Rewriting fun chars written => unifyNewlines written = chars where
  line hFront hWritten := exists_of_unifyNewlines_eq hFront hWritten
  mayReplace {rest other} hOther := by
    subst hOther
    intro c hc
    rcases Text.head?_unifyNewlines other with hSame | ⟨-, hReturn⟩
    · exact Or.inl (hSame ▸ hc)
    · rw [hReturn] at hc
      cases hc
      exact Or.inr rfl
  blockLines {chars written rest lines} hWritten h := by
    subst hWritten
    rw [readBlockLines_unifyNewlines] at h
    cases hLines : readBlockLines written with
    | ok p =>
        rw [hLines] at h
        cases h
        exact ⟨p.2, rfl, rfl⟩
    | error e =>
        rw [hLines] at h
        cases h
  skip {chars written rest c} hWritten h := by
    subst hWritten
    have hLine := not_isLineEnd_of_skipIgnored h
    rw [skipIgnored_unifyNewlines] at h
    have hFront : ∀ d ∈ [c], isLineEnd d = false := List.forall_mem_singleton.mpr hLine
    exact exists_of_unifyNewlines_eq hFront h

end Graphql.Lexer

namespace Graphql.Tokens

open Text (unifyNewlines)

/-- If all of a text is read, or all of it with unified line ends, the tokens are the
same. -/
theorem ofChars_unifyNewlines {chars : List Char}
    (h : (ofChars chars).Complete ∨ (ofChars (unifyNewlines chars)).Complete) :
    ofChars (unifyNewlines chars) = ofChars chars := by
  rcases h with hComplete | hComplete
  · have hEnd (chars written : List Char) (hWritten : unifyNewlines chars = written)
        (hSkip : Lexer.skipIgnored false chars = []) : ofChars written = .finished := by
      subst hWritten
      exact ofChars_finished (by rw [Lexer.skipIgnored_unifyNewlines, hSkip]; rfl)
    rw [Lexer.rewriting_unifyNewlines.ofChars hEnd rfl hComplete, append_finished]
  · have hEnd (chars written : List Char) (hWritten : unifyNewlines written = chars)
        (hSkip : Lexer.skipIgnored false chars = []) : ofChars written = .finished := by
      subst hWritten
      rw [Lexer.skipIgnored_unifyNewlines] at hSkip
      exact ofChars_finished (Text.unifyNewlines_eq_nil hSkip)
    rw [Lexer.rewriting_of_unifyNewlines.ofChars hEnd rfl hComplete, append_finished]

end Graphql.Tokens
end SchemaModels
