import SchemaModels.Proofs.Graphql.Rewriting

/-!
The tokens of two texts with a line feed between them: those of the first and then
those of the second, since the line feed ends whatever is open at the end of the
first, a comment, a name or a number.
-/
namespace SchemaModels.Graphql

namespace Lexer

/-- What stands behind the tokens of a text is passed over up to the next line. -/
theorem skipIgnored_line {inComment : Bool} {chars : List Char}
    (h : skipIgnored inComment chars = []) (more : List Char) :
    skipIgnored inComment (chars ++ '\n' :: more) = skipIgnored false more := by
  induction chars generalizing inComment with
  | nil => cases inComment <;> rfl
  | cons c chars ih =>
      simp only [List.cons_append, skipIgnored] at h ⊢
      split_ifs at h ⊢
      · exact ih h
      · exact ih h
      · exact ih h

theorem skipIgnored_append {inComment : Bool} {chars rest : List Char} {c : Char}
    (h : skipIgnored inComment chars = c :: rest) (more : List Char) :
    skipIgnored inComment (chars ++ more) = c :: (rest ++ more) := by
  induction chars generalizing inComment with
  | nil => cases h
  | cons d chars ih =>
      simp only [List.cons_append, skipIgnored] at h ⊢
      split_ifs at h ⊢
      · exact ih h
      · exact ih h
      · exact ih h
      · obtain ⟨rfl, rfl⟩ := List.cons.inj h
        rfl

/-- Three quotes close a block text. -/
theorem readBlockLines_length {chars rest : List Char} {lines : List (List Char)}
    (h : readBlockLines chars = .ok (lines, rest)) : 3 ≤ chars.length := by
  fun_induction readBlockLines chars generalizing lines rest with
  | case1 => cases h
  | case2 after => simp
  | case3 after ih => simp
  | case4 after ih =>
      obtain ⟨read, hRead, -⟩ := mapPiece_ok h
      have hLength := ih hRead
      simp only [List.length_cons]
      omega
  | case5 c after _ _ _ ih =>
      obtain ⟨read, hRead, -⟩ := mapPiece_ok h
      have hLength := ih hRead
      rw [List.length_cons]
      omega

theorem readBlockLines_append {chars rest : List Char} {lines : List (List Char)}
    (h : readBlockLines chars = .ok (lines, rest)) (more : List Char) :
    readBlockLines (chars ++ more) = .ok (lines, rest ++ more) := by
  fun_induction readBlockLines chars generalizing lines rest with
  | case1 => cases h
  | case2 after =>
      cases h
      rfl
  | case3 after ih =>
      obtain ⟨read, hRead, rfl⟩ := mapPiece_ok h
      simp only [List.cons_append, readBlockLines, ih hRead, mapPiece]
  | case4 after ih =>
      obtain ⟨read, hRead, rfl⟩ := mapPiece_ok h
      simp only [List.cons_append, readBlockLines, ih hRead, mapPiece]
  | case5 c after hClose hQuotes hBoth ih =>
      obtain ⟨read, hRead, rfl⟩ := mapPiece_ok h
      -- the three characters that could be taken together are all there
      obtain ⟨x, y, z, tail, rfl⟩ : ∃ x y z tail, after = x :: y :: z :: tail := by
        have hLength := readBlockLines_length hRead
        rcases after with _ | ⟨x, _ | ⟨y, _ | ⟨z, tail⟩⟩⟩
        · simp at hLength
        · simp at hLength
        · simp at hLength
        · exact ⟨x, y, z, tail, rfl⟩
      rw [List.cons_append, readBlockLines, ih hRead, mapPiece]
      · intro rest' hc hRest
        simp only [List.cons_append, List.cons.injEq] at hRest
        exact hClose _ hc (by rw [hRest.1, hRest.2.1])
      · intro rest' hc hRest
        simp only [List.cons_append, List.cons.injEq] at hRest
        exact hQuotes _ hc (by rw [hRest.1, hRest.2.1, hRest.2.2.1])
      · intro rest' hc hRest
        rw [List.cons_append, List.cons.injEq] at hRest
        exact hBoth _ hc (by rw [hRest.1])

/-- Writing a line feed and another text behind a text. -/
theorem rewriting_append (more : List Char) :
    Rewriting fun chars written => chars ++ '\n' :: more = written where
  line _ hWritten := ⟨_, hWritten.symm.trans (List.append_assoc ..), rfl⟩
  mayReplace {rest other} hOther := by
    subst hOther
    intro c hc
    cases rest with
    | nil =>
        cases hc
        exact Or.inr rfl
    | cons d rest => exact Or.inl hc
  blockLines {chars written rest lines} hWritten h := by
    subst hWritten
    exact ⟨_, readBlockLines_append h _, rfl⟩
  skip {chars written rest c} hWritten h := by
    subst hWritten
    exact ⟨_, skipIgnored_append h _, rfl⟩

end Lexer

/-- Two texts with a line feed between them have the tokens of the first and then
those of the second, if all of the first is read. -/
theorem Tokens.ofChars_append {first : List Char} (h : (ofChars first).Complete)
    (second : List Char) :
    ofChars (first ++ '\n' :: second) = (ofChars first).append (ofChars second) := by
  apply (Lexer.rewriting_append second).ofChars _ rfl h
  rintro chars written rfl hSkip
  exact ofChars_congr (Lexer.skipIgnored_line hSkip second)

end SchemaModels.Graphql
