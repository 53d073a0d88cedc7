import SchemaModels.Proofs.FirstFailure
import SchemaModels.Yaml.Lexer

/-!
How the tokens of a YAML text can fail. `FailsOnly` says that a computation has no
other failures than those of a kind, and each reader of the lexer has one such
lemma, put together from those of its parts: besides malformed text only the
numbers behind an escape or in a version can be at fault.
-/
namespace SchemaModels

/-- Every failure of a computation is of a kind. -/
def FailsOnly {ε α : Type} (kind : ε → Prop) (outcome : Except ε α) : Prop :=
  ∀ e, outcome = .error e → kind e

namespace FailsOnly

variable {ε α β : Type} {kind : ε → Prop} {outcome : Except ε α}

theorem ok (a : α) : FailsOnly kind (.ok a) := by
  intro e h
  cases h

theorem error {e : ε} (h : kind e) : FailsOnly kind (.error e : Except ε α) := by
  rintro e' ⟨⟩
  exact h

theorem map (h : FailsOnly kind outcome) (f : α → β) : FailsOnly kind (outcome.map f) := by
  cases outcome with
  | ok a => exact ok (f a)
  | error e => exact error (h e rfl)

theorem bind {next : α → Except ε β} (h : FailsOnly kind outcome)
    (hNext : ∀ a, FailsOnly kind (next a)) : FailsOnly kind (outcome >>= next) := by
  intro e he
  rcases bind_eq_error_iff.mp he with hFirst | ⟨a, _, hSecond⟩
  · exact h e hFirst
  · exact hNext a e hSecond

theorem ite {c : Prop} [Decidable c] {other : Except ε α} (h : FailsOnly kind outcome)
    (hOther : FailsOnly kind other) : FailsOnly kind (if c then outcome else other) := by
  split
  · exact h
  · exact hOther

end FailsOnly

namespace Yaml

/-- A failure of the characters of a text: they break the rules of the notation, or
write a number that is out of range. -/
inductive Error.IsLexical : Error → Prop
  | malformed : IsLexical .malformed
  | codePoint : IsLexical .codePoint
  | hugeCodePoint : IsLexical .hugeCodePoint
  | longNumber {count : Nat} (h : maxIntegerDigits < count) :
      IsLexical (.numeral (.tooManyDigits count))

/-- What the lexer reads fails at most in one of these ways. -/
abbrev FailsLexically {α : Type} (outcome : Except Error α) : Prop :=
  FailsOnly Error.IsLexical outcome

section Scalars

theorem failsLexically_malformed {α : Type} :
    FailsLexically (.error .malformed : Except Error α) :=
  .error .malformed

theorem quotedBreaks_failsLexically (fuel : Nat) (cursor : Cursor) :
    FailsLexically (quotedBreaks fuel cursor) := by
  induction fuel generalizing cursor with
  | zero => exact failsLexically_malformed
  | succ fuel ih =>
      refine .ite failsLexically_malformed ?_
      dsimp only
      split
      · exact .ok _
      · exact (ih _).map _

theorem quotedSpaces_failsLexically (cursor : Cursor) : FailsLexically (quotedSpaces cursor) := by
  unfold quotedSpaces
  dsimp only
  split
  · exact failsLexically_malformed
  · split
    · exact .ok _
    · exact (quotedBreaks_failsLexically _ _).map _

theorem characterOf_failsLexically (code : Nat) : FailsLexically (characterOf code) :=
  .ite (.error .hugeCodePoint) (.ite (.error .codePoint) (.ite (.ok _) (.ok _)))

theorem quotedEscape_failsLexically (cursor : Cursor) : FailsLexically (quotedEscape cursor) := by
  unfold quotedEscape
  split
  · exact failsLexically_malformed
  · split
    · exact .ok _
    · refine .ite ?_ failsLexically_malformed
      split
      · exact (characterOf_failsLexically _).map _
      · exact failsLexically_malformed
    · split
      · exact quotedBreaks_failsLexically _ _
      · exact failsLexically_malformed

theorem quotedText_failsLexically (double : Bool) (fuel : Nat) (cursor : Cursor) :
    FailsLexically (quotedText double fuel cursor) := by
  induction fuel generalizing cursor with
  | zero => exact failsLexically_malformed
  | succ fuel ih =>
      have hMore (add : List Char → List Char) (cursor : Cursor) :
          FailsLexically (quotedText double fuel cursor >>= fun read =>
            pure (add read.1, read.2)) :=
        (ih cursor).bind fun _ => .ok _
      unfold quotedText
      split
      · exact failsLexically_malformed
      · refine .ite ((quotedSpaces_failsLexically _).bind fun gap => hMore _ _) ?_
        refine .ite (hMore _ _) ?_
        refine .ite (.ok _) ?_
        exact .ite ((quotedEscape_failsLexically _).bind fun escaped => hMore _ _) (hMore _ _)

theorem quotedScalar_failsLexically (double : Bool) (cursor : Cursor) :
    FailsLexically (quotedScalar double cursor) :=
  (quotedText_failsLexically double _ _).map _

theorem blockHead_failsLexically (cursor : Cursor) : FailsLexically (blockHead cursor) :=
  .ite (.ok _) failsLexically_malformed

theorem blockScalar_failsLexically (folded : Bool) (parent : Int) (cursor : Cursor) :
    FailsLexically (blockScalar folded parent cursor) :=
  (blockHead_failsLexically _).bind fun _ => .ite (.ok _) (.ok _)

end Scalars

namespace Lexer

theorem dropStale_failsLexically (lexer : Lexer) : FailsLexically lexer.dropStale :=
  .ite failsLexically_malformed (.ok _)

theorem dropKey_failsLexically (lexer : Lexer) : FailsLexically lexer.dropKey := by
  unfold dropKey
  split
  · exact .ok _
  · exact .ite failsLexically_malformed (.ok _)

theorem noteKey_failsLexically (lexer : Lexer) : FailsLexically lexer.noteKey :=
  .ite (.ok _) ((dropKey_failsLexically lexer).map _)

section Directives

theorem number_failsLexically (cursor : Cursor) : FailsLexically (number cursor) := by
  refine .ite failsLexically_malformed ?_
  split
  · rename_i hLong
    exact .error (.longNumber hLong)
  · exact .ok _

theorem orMalformed_failsLexically {α : Type} (read : Option α) :
    FailsLexically (orMalformed read) := by
  cases read with
  | none => exact failsLexically_malformed
  | some a => exact .ok a

theorem version_failsLexically (cursor : Cursor) : FailsLexically (version cursor) := by
  refine (number_failsLexically _).bind fun major => .ite failsLexically_malformed ?_
  exact (number_failsLexically _).bind fun _ => .ite (.ok _) failsLexically_malformed

theorem directiveBody_failsLexically (name : String) (cursor : Cursor) :
    FailsLexically (directiveBody name cursor) :=
  .ite (version_failsLexically cursor) (.ite (orMalformed_failsLexically _) (.ok _))

theorem directive_failsLexically (cursor : Cursor) : FailsLexically (directive cursor) := by
  refine (orMalformed_failsLexically _).bind fun word => .ite failsLexically_malformed ?_
  refine (directiveBody_failsLexically _ _).bind fun body => .ite failsLexically_malformed ?_
  split
  · exact .ok _
  · exact .ok _

end Directives

section Steps

variable (lexer : Lexer)

theorem tookOrFail_failsLexically {α : Type} (token : α → Token) (read : Option (α × Cursor)) :
    FailsLexically (lexer.tookOrFail token read) :=
  (orMalformed_failsLexically read).map _

theorem endContent_failsLexically : FailsLexically lexer.endContent :=
  (dropKey_failsLexically _).map _

theorem openFlow_failsLexically (token : Token) : FailsLexically (lexer.openFlow token) :=
  (noteKey_failsLexically lexer).bind fun _ => .ok _

theorem closeFlow_failsLexically (token : Token) : FailsLexically (lexer.closeFlow token) :=
  .ite failsLexically_malformed ((dropKey_failsLexically _).bind fun _ => .ok _)

theorem blockEntry_failsLexically : FailsLexically lexer.blockEntry :=
  .ite failsLexically_malformed ((dropKey_failsLexically _).bind fun _ => .ok _)

theorem explicitKey_failsLexically : FailsLexically lexer.explicitKey :=
  .ite failsLexically_malformed ((dropKey_failsLexically _).bind fun _ => .ok _)

theorem valueMark_failsLexically : FailsLexically lexer.valueMark := by
  unfold valueMark
  split
  · exact .ok _
  · exact .ite failsLexically_malformed (.ok _)

theorem quoted_failsLexically (double : Bool) : FailsLexically (lexer.quoted double) :=
  (noteKey_failsLexically lexer).bind fun _ =>
    (quotedScalar_failsLexically double _).bind fun _ => .ok _

theorem block_failsLexically (folded : Bool) : FailsLexically (lexer.block folded) :=
  (dropKey_failsLexically _).bind fun _ =>
    (blockScalar_failsLexically folded _ _).bind fun _ => .ok _

theorem plain_failsLexically : FailsLexically lexer.plain :=
  (noteKey_failsLexically lexer).bind fun _ => .ok _

theorem token_failsLexically (c : Char) (rest : List Char) :
    FailsLexically (lexer.token c rest) := by
  have hEnd (f : Lexer → Lexer) :
      FailsLexically (lexer.endContent >>= fun ended => pure (f ended)) :=
    (endContent_failsLexically lexer).bind fun _ => .ok _
  have hName {α : Type} (token : α → Token) (read : Lexer → Option (α × Cursor)) :
      FailsLexically (lexer.noteKey >>= fun noted =>
        (noted.allowing false).tookOrFail token (read (noted.allowing false))) :=
    (noteKey_failsLexically lexer).bind fun _ => tookOrFail_failsLexically _ _ _
  unfold token
  refine .ite ((endContent_failsLexically lexer).bind fun _ =>
    (directive_failsLexically _).bind fun _ => .ok _) ?_
  refine .ite (hEnd _) (.ite (hEnd _) ?_)
  refine .ite (openFlow_failsLexically lexer _) (.ite (openFlow_failsLexically lexer _) ?_)
  refine .ite (closeFlow_failsLexically lexer _) (.ite (closeFlow_failsLexically lexer _) ?_)
  refine .ite ((dropKey_failsLexically _).bind fun _ => .ok _) ?_
  refine .ite (blockEntry_failsLexically lexer) (.ite (explicitKey_failsLexically lexer) ?_)
  refine .ite (valueMark_failsLexically lexer) ?_
  refine .ite (hName _ fun noted => anchor? noted.cursor.next) ?_
  refine .ite (hName _ fun noted => anchor? noted.cursor.next) ?_
  refine .ite (hName _ fun noted => tag? noted.cursor) ?_
  refine .ite (block_failsLexically lexer _) (.ite (block_failsLexically lexer _) ?_)
  refine .ite (quoted_failsLexically lexer _) (.ite (quoted_failsLexically lexer _) ?_)
  exact .ite (plain_failsLexically lexer) failsLexically_malformed

theorem turn_failsLexically : FailsLexically lexer.turn := by
  refine (dropStale_failsLexically _).bind fun settled => ?_
  dsimp only
  split
  · exact (endContent_failsLexically _).bind fun _ => .ok _
  · exact (token_failsLexically _ _ _).bind fun _ => .ok _

end Steps

theorem run_failure (fuel : Nat) (lexer : Lexer) : ∀ e ∈ (lexer.run fuel).failure, e.IsLexical := by
  induction fuel generalizing lexer with
  | zero =>
      rintro e ⟨⟩
      exact .malformed
  | succ fuel ih =>
      rw [run]
      split
      · rename_i e hTurn
        rintro e' ⟨⟩
        exact turn_failsLexically lexer e hTurn
      · split_ifs
        · intro e h
          cases h
        · exact ih _

end Lexer

/-- The tokens of a text fail only lexically. -/
theorem TokenList.ofText_failure (text : String) :
    ∀ e ∈ (TokenList.ofText text).failure, e.IsLexical := by
  unfold TokenList.ofText
  dsimp only
  split
  · rintro e ⟨⟩
    exact .malformed
  · exact Lexer.run_failure _ _

end Yaml
end SchemaModels
