import SchemaModels.Proofs.Graphql.Escape

/-!
Texts that are written in another way but have the same tokens. Lines stay as they
are, so every token of one line stays, and what is left to look at are the blanks
between tokens, the lines of block texts, and the end of the text.
-/
namespace SchemaModels.Graphql

namespace Tokens

/-- All of the text is read. -/
def Complete : Tokens → Prop
  | .finished => True
  | .broken _ => False
  | .next _ rest => rest.Complete

/-- More tokens behind the last one. -/
def append : Tokens → Tokens → Tokens
  | .finished, more => more
  | .broken e, _ => .broken e
  | .next token rest, more => .next token (rest.append more)

theorem append_finished (tokens : Tokens) : tokens.append .finished = tokens := by
  induction tokens with
  | finished => rfl
  | broken e => rfl
  | next token rest ih => rw [append, ih]

theorem ofChars_finished {chars : List Char} (h : Lexer.skipIgnored false chars = []) :
    ofChars chars = .finished := by
  fun_cases ofChars chars with
  | case1 => rfl
  | case2 c rest hCons =>
      rw [h] at hCons
      cases hCons
  | case3 c rest hCons =>
      rw [h] at hCons
      cases hCons

theorem ofChars_broken {chars rest : List Char} {c : Char} {e : SyntaxError}
    (hSkip : Lexer.skipIgnored false chars = c :: rest)
    (hRead : Lexer.readToken c rest = .error e) : ofChars chars = .broken e := by
  fun_cases ofChars chars with
  | case1 hNone =>
      rw [hSkip] at hNone
      cases hNone
  | case2 c' rest' hCons e' hBroken =>
      rw [hSkip] at hCons
      cases hCons
      rw [hRead] at hBroken
      cases hBroken
      rfl
  | case3 c' rest' hCons token after hToken =>
      rw [hSkip] at hCons
      cases hCons
      rw [hRead] at hToken
      cases hToken

/-- The tokens of a text are those behind its first blanks. -/
theorem ofChars_congr {chars other : List Char}
    (h : Lexer.skipIgnored false chars = Lexer.skipIgnored false other) :
    ofChars chars = ofChars other := by
  fun_cases ofChars other with
  | case1 hNone => exact ofChars_finished (h.trans hNone)
  | case2 c rest hCons e hBroken => exact ofChars_broken (h.trans hCons) hBroken
  | case3 c rest hCons token after hToken => exact ofChars_next (h.trans hCons) hToken rfl

end Tokens

namespace Lexer

/-- Another way to write texts, as a relation between what is left of the one and of
the other. -/
structure Rewriting (R : List Char → List Char → Prop) : Prop where
  line : ∀ {front rest written : List Char}, (∀ c ∈ front, isLineEnd c = false) →
    R (front ++ rest) written → ∃ other, written = front ++ other ∧ R rest other
  mayReplace : ∀ {rest other : List Char}, R rest other → MayReplace rest other
  blockLines : ∀ {chars written rest : List Char} {lines : List (List Char)}, R chars written →
    readBlockLines chars = .ok (lines, rest) →
      ∃ other, readBlockLines written = .ok (lines, other) ∧ R rest other
  skip : ∀ {chars written rest : List Char} {c : Char}, R chars written →
    skipIgnored false chars = c :: rest →
      ∃ other, skipIgnored false written = c :: other ∧ R rest other

namespace Rewriting

variable {R : List Char → List Char → Prop} {chars written rest : List Char}

theorem isLocal {α : Type} {read : List Char → Piece α} {a : α} (hR : Rewriting R)
    (hLocal : IsLocal read) (hWritten : R chars written) (h : read chars = .ok (a, rest)) :
    ∃ other, read written = .ok (a, other) ∧ R rest other := by
  obtain ⟨front, rfl, hFront, hOther⟩ := hLocal _ _ _ h
  obtain ⟨other, rfl, hRest⟩ := hR.line hFront hWritten
  exact ⟨other, hOther other (hR.mayReplace hRest), hRest⟩

theorem number {c : Char} {token : Token} (hR : Rewriting R) (hWritten : R chars written)
    (h : readNumber (c :: chars) = .ok (token, rest)) :
    ∃ other, readNumber (c :: written) = .ok (token, other) ∧ R rest other := by
  obtain ⟨front, hChars, hFront, hOther⟩ := readNumber_isLocal _ _ _ h
  cases front with
  | nil =>
      have hLess := readNumber_lt h
      rw [hChars] at hLess
      exact absurd hLess (Nat.lt_irrefl _)
  | cons d front =>
      obtain ⟨rfl, rfl⟩ := List.cons.inj hChars
      rw [List.forall_mem_cons] at hFront
      obtain ⟨other, rfl, hRest⟩ := hR.line hFront.2 hWritten
      exact ⟨other, hOther other (hR.mayReplace hRest), hRest⟩

theorem quoted {token : Token} (hR : Rewriting R) (hWritten : R chars written)
    (h : readQuoted chars = .ok (token, rest)) :
    ∃ other, readQuoted written = .ok (token, other) ∧ R rest other := by
  fun_cases readQuoted chars with
  | case1 after =>
      obtain ⟨lines, hLines, rfl⟩ := mapPiece_ok h
      have hQuotes : ∀ c ∈ ['\x22', '\x22'], isLineEnd c = false := by simp [isLineEnd]
      obtain ⟨block, rfl, hBlock⟩ := hR.line hQuotes hWritten
      obtain ⟨other, hOther, hRest⟩ := hR.blockLines hBlock hLines
      refine ⟨other, ?_, hRest⟩
      rw [List.cons_append, List.cons_append, List.nil_append, readQuoted, hOther]
      rfl
  | case2 chars hBlock =>
      rw [readQuoted] at h
      · obtain ⟨text, hText, rfl⟩ := mapPiece_ok h
        obtain ⟨front, rfl, hFront, hTake⟩ := readText_isLocal _ _ _ hText
        obtain ⟨other, rfl, hRest⟩ := hR.line hFront hWritten
        have hOther := hTake other (hR.mayReplace hRest)
        refine ⟨other, ?_, hRest⟩
        rw [readQuoted, hOther]
        · rfl
        · -- an empty text has one quote, and the rest does not begin with another
          intro more hQuotes
          cases front with
          | nil => cases hTake [] (by simp [MayReplace])
          | cons first front =>
              obtain ⟨rfl, hNext⟩ := List.cons.inj hQuotes
              cases front with
              | nil =>
                  obtain rfl : other = '\x22' :: more := hNext
                  rcases hR.mayReplace hRest '\x22' rfl with hHead | hLineEnd
                  · obtain ⟨tail, rfl⟩ := List.head?_eq_some_iff.mp hHead
                    exact hBlock tail rfl
                  · cases hLineEnd
              | cons second front =>
                  obtain ⟨rfl, -⟩ := List.cons.inj hNext
                  exact hBlock _ rfl
      · exact hBlock

theorem token {c : Char} {token : Token} (hR : Rewriting R) (hWritten : R chars written)
    (h : readToken c chars = .ok (token, rest)) :
    ∃ other, readToken c written = .ok (token, other) ∧ R rest other := by
  unfold readToken at h ⊢
  split at h
  · cases h
    exact ⟨written, rfl, hWritten⟩
  split_ifs at h ⊢
  · exact hR.quoted hWritten h
  · exact hR.number hWritten h
  · exact hR.isLocal (readName_isLocal c) hWritten h
  · exact hR.isLocal readPoints_isLocal hWritten h

/-- A text has the tokens of another one in front, if it is that text written in
another way up to the end of the other. -/
theorem ofChars (hR : Rewriting R) {ending : Tokens}
    (hEnd : ∀ chars written, R chars written → skipIgnored false chars = [] →
      Tokens.ofChars written = ending) (hWritten : R chars written)
    (hComplete : (Tokens.ofChars chars).Complete) :
    Tokens.ofChars written = (Tokens.ofChars chars).append ending := by
  -- token by token: after each one what is left of the two texts is related by `R` again
  fun_induction Tokens.ofChars chars generalizing written with
  | case1 chars hNone => exact hEnd _ _ hWritten hNone
  | case2 => exact hComplete.elim
  | case3 chars c rest hSkip token after hToken ih =>
      obtain ⟨behind, hBehind, hRest⟩ := hR.skip hWritten hSkip
      obtain ⟨other, hOther, hAfter⟩ := hR.token hRest hToken
      exact Tokens.ofChars_next hBehind hOther (ih hAfter hComplete)

end Rewriting

end Lexer
end SchemaModels.Graphql
