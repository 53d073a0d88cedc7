import SchemaModels.Graphql.Parser
import SchemaModels.Proofs.Graphql.Rewriting

/-!
Parsing with more tokens behind those of an object type. If they begin another type
definition, nothing that an object type ends in can go on with them: they begin with
a text or with the word for a type, which is no part of a type except as the
description or the name of something that its braces have to close.
-/
namespace SchemaModels.Graphql

namespace Tokens

/-- What is left of some tokens when some are taken from the front. -/
inductive EndsIn : Tokens → Tokens → Prop where
  | self (tokens : Tokens) : EndsIn tokens tokens
  | next (token : Token) {tokens rest : Tokens} (h : EndsIn tokens rest) :
      EndsIn (.next token tokens) rest

theorem EndsIn.trans {tokens middle rest : Tokens} (h : EndsIn tokens middle)
    (hRest : EndsIn middle rest) : EndsIn tokens rest := by
  induction h with
  | self => exact hRest
  | next token _ ih => exact .next token (ih hRest)

theorem EndsIn.size_le {tokens rest : Tokens} (h : EndsIn tokens rest) :
    rest.size ≤ tokens.size := by
  induction h with
  | self => exact Nat.le_refl _
  | next token _ ih => exact Nat.le_succ_of_le ih

theorem EndsIn.complete_iff {tokens rest : Tokens} (h : EndsIn tokens rest) :
    tokens.Complete ↔ rest.Complete := by
  induction h with
  | self => exact Iff.rfl
  | next token _ ih => exact ih

theorem size_le_append (tokens more : Tokens) : tokens.size ≤ (tokens.append more).size := by
  induction tokens with
  | finished => exact Nat.zero_le _
  | broken e => exact Nat.le_refl _
  | next token rest ih => exact Nat.succ_le_succ ih

/-- The tokens of a type definition: they begin with a description or with the word
for a type. -/
inductive BeginsType : Tokens → Prop where
  | word (rest : Tokens) : BeginsType (.next (.name "type") rest)
  | text (value : String) (rest : Tokens) : BeginsType (.next (.text value) rest)
  | blockText (value : String) (rest : Tokens) : BeginsType (.next (.blockText value) rest)

theorem BeginsType.exists_next {tokens : Tokens} (h : tokens.BeginsType) :
    ∃ first rest, tokens = .next first rest := by
  cases h with
  | word rest => exact ⟨_, rest, rfl⟩
  | text value rest => exact ⟨_, rest, rfl⟩
  | blockText value rest => exact ⟨_, rest, rfl⟩

end Tokens

namespace Parser

variable {α β : Type} {more tokens : Tokens}

/-- What one parser makes of some tokens, another one makes of them with more behind
them, and it leaves those behind as well. -/
def ExtendsAt (more tokens : Tokens) (first second : Parser α) : Prop :=
  ∀ a rest, first.run tokens = .ok (a, rest) →
    tokens.EndsIn rest ∧ second.run (tokens.append more) = .ok (a, rest.append more)

/-- The same for all tokens. -/
def Extends (more : Tokens) (first second : Parser α) : Prop :=
  ∀ tokens, ExtendsAt more tokens first second

theorem ExtendsAt.bind {first second : Parser α} {next next' : α → Parser β}
    (h : ExtendsAt more tokens first second) (hNext : ∀ a, Extends more (next a) (next' a)) :
    ExtendsAt more tokens (first >>= next) (second >>= next') := by
  intro b rest hRun
  rw [StateT.run_bind, bind_eq_ok_iff] at hRun
  obtain ⟨⟨a, middle⟩, hFirst, hSecond⟩ := hRun
  obtain ⟨hEnds, hMore⟩ := h a middle hFirst
  obtain ⟨hEnds', hMore'⟩ := hNext a middle b rest hSecond
  refine ⟨hEnds.trans hEnds', ?_⟩
  rw [StateT.run_bind, bind_eq_ok_iff]
  exact ⟨_, hMore, hMore'⟩

namespace Extends

theorem pure (a : α) : Extends more (Pure.pure a) (Pure.pure a) := by
  intro tokens a' rest hRun
  cases hRun
  exact ⟨.self tokens, rfl⟩

theorem throw (e : SyntaxError) {second : Parser α} : Extends more (throw e) second := by
  intro tokens a rest hRun
  cases hRun

theorem throw_bind (e : SyntaxError) (next : α → Parser β) {second : Parser β} :
    Extends more ((MonadExcept.throw e : Parser α) >>= next) second := by
  intro tokens b rest hRun
  cases hRun

theorem bind {first second : Parser α} {next next' : α → Parser β}
    (h : Extends more first second) (hNext : ∀ a, Extends more (next a) (next' a)) :
    Extends more (first >>= next) (second >>= next') :=
  fun tokens => (h tokens).bind hNext

theorem map {first second : Parser α} (h : Extends more first second) (f : α → β) :
    Extends more (f <$> first) (f <$> second) := by
  rw [map_eq_pure_bind, map_eq_pure_bind]
  exact h.bind fun a => .pure (f a)

theorem ite {c : Prop} [Decidable c] {first second first' second' : Parser α}
    (hFirst : Extends more first first') (hSecond : Extends more second second') :
    Extends more (if c then first else second) (if c then first' else second') := by
  by_cases h : c
  · rw [if_pos h, if_pos h]
    exact hFirst
  · rw [if_neg h, if_neg h]
    exact hSecond

/-- A parser that looks at the next token: it does the same with that token, and at
the end of the tokens it does nothing else than in front of more. -/
theorem peek {next next' : Option Token → Parser α}
    (hToken : ∀ token rest,
      ExtendsAt more (.next token rest) (next (some token)) (next' (some token)))
    (hEnd : ∀ a rest, (next none).run .finished = .ok (a, rest) →
      rest = .finished ∧ (peek >>= next').run more = .ok (a, more)) :
    Extends more (peek >>= next) (Parser.peek >>= next') := by
  intro tokens a rest hRun
  cases tokens with
  | finished =>
      obtain ⟨rfl, hMore⟩ := hEnd a rest hRun
      exact ⟨.self _, hMore⟩
  | broken e => cases hRun
  | next token others => exact hToken token others a rest hRun

/-- What fails at the next token. -/
theorem peek_throw (f : Option Token → SyntaxError) {second : Parser α} :
    Extends more (Parser.peek >>= fun token => MonadExcept.throw (f token)) second := by
  intro tokens a rest hRun
  cases tokens <;> cases hRun

/-- The bound of a repetition only grows with more tokens. -/
theorem fuel {next next' : Nat → Parser α}
    (h : ∀ fuel fuel', fuel ≤ fuel' → Extends more (next fuel) (next' fuel')) :
    Extends more (Parser.fuel >>= next) (Parser.fuel >>= next') := by
  intro tokens a rest hRun
  have hSize := Nat.succ_le_succ (tokens.size_le_append more)
  exact h _ _ hSize tokens a rest hRun

end Extends

/-- A token is left behind. The one behind it has to be there or the end. -/
theorem advance_extendsAt (hMore : more.BeginsType) (token : Token) (rest : Tokens) :
    ExtendsAt more (.next token rest) advance advance := by
  intro a after hRun
  cases rest with
  | finished =>
      cases hRun
      refine ⟨.next token (.self _), ?_⟩
      cases hMore <;> rfl
  | broken e => cases hRun
  | next token' rest =>
      cases hRun
      exact ⟨.next token (.self _), rfl⟩

/-- Takes a given token if it is next. -/
def takeIf (token : Token) : Parser Bool := do
  if (← peek) == some token then
    advance
    return true
  else return false

theorem skip_eq (p : Punctuator) : skip p = takeIf (.punctuator p) := by
  simp [skip, isNext, takeIf]

theorem skipKeyword_eq (word : String) : skipKeyword word = takeIf (.name word) := rfl

theorem takeIf_other {first token : Token} (h : first ≠ token) (rest : Tokens) :
    (takeIf token).run (.next first rest) = .ok (false, .next first rest) := by
  have hFirst : (some first == some token) = false := by simpa using h
  have hRun : (takeIf token).run (.next first rest) =
      (if (some first == some token) = true then (do advance; return true) else return false :
        Parser Bool).run (.next first rest) := rfl
  rw [hRun, hFirst]
  rfl

section Steps

variable (hMore : more.BeginsType)
include hMore

theorem isNext_extends (p : Punctuator) : Extends more (isNext p) (isNext p) := by
  refine .peek (fun token rest => Extends.pure _ _) fun a rest hRun => ?_
  cases hRun
  cases hMore <;> exact ⟨rfl, rfl⟩

/-- Taking a token if it is next, where no type definition begins with it. -/
theorem takeIf_extends {token : Token} (hToken : ∀ rest, more ≠ .next token rest) :
    Extends more (takeIf token) (takeIf token) := by
  refine .peek (fun next rest => ?_) fun a rest hRun => ?_
  · split
    · exact (advance_extendsAt hMore next rest).bind fun _ => .pure true
    · exact Extends.pure _ _
  · cases hRun
    obtain ⟨first, others, rfl⟩ := hMore.exists_next
    refine ⟨rfl, takeIf_other (fun h => ?_) others⟩
    exact hToken others (by rw [h])

theorem skip_extends (p : Punctuator) : Extends more (skip p) (skip p) := by
  rw [skip_eq]
  refine takeIf_extends hMore fun rest h => ?_
  rw [h] at hMore
  cases hMore

theorem skipKeyword_extends {word : String} (hWord : word ≠ "type") :
    Extends more (skipKeyword word) (skipKeyword word) := by
  rw [skipKeyword_eq]
  refine takeIf_extends hMore fun rest h => ?_
  rw [h] at hMore
  cases hMore
  exact hWord rfl

theorem expect_extends (p : Punctuator) : Extends more (expect p) (expect p) :=
  (skip_extends hMore p).bind fun _ => .ite (.peek_throw _) (.pure ())

theorem name_extends : Extends more name name := by
  refine .peek (fun token rest => ?_) fun a rest hRun => by cases hRun
  cases token with
  | name value => exact (advance_extendsAt hMore _ rest).bind fun _ => .pure value
  | _ => exact Extends.throw _ _

end Steps

section Repetition

variable {item : Parser α} (hMore : more.BeginsType) (hItem : Extends more item item)
include hMore hItem

theorem itemsUntil_extends (close : Punctuator) {fuel fuel' : Nat} (hFuel : fuel ≤ fuel') :
    Extends more (itemsUntil close item fuel) (itemsUntil close item fuel') := by
  induction fuel generalizing fuel' with
  | zero => exact .peek_throw _
  | succ fuel ih =>
      obtain ⟨n, rfl⟩ : ∃ n, fuel' = n + 1 := ⟨fuel' - 1, by omega⟩
      refine (skip_extends hMore close).bind fun _ => .ite (.pure []) ?_
      exact hItem.bind fun first => (ih (Nat.le_of_succ_le_succ hFuel)).bind fun _ => .pure _

theorem any_extends (opening close : Punctuator) :
    Extends more (any opening close item) (any opening close item) :=
  (expect_extends hMore opening).bind fun _ => .fuel fun _ _ hFuel =>
    itemsUntil_extends hMore hItem close hFuel

theorem many_extends (opening close : Punctuator) :
    Extends more (many opening close item) (many opening close item) :=
  (expect_extends hMore opening).bind fun _ => hItem.bind fun _ => .fuel fun _ _ hFuel =>
    (itemsUntil_extends hMore hItem close hFuel).bind fun _ => .pure _

theorem optionalMany_extends (opening close : Punctuator) :
    Extends more (optionalMany opening close item) (optionalMany opening close item) :=
  (isNext_extends hMore opening).bind fun _ => .ite (many_extends hMore hItem opening close)
    (.pure [])

theorem itemsWhile_extends (start : Punctuator) {fuel fuel' : Nat} (hFuel : fuel ≤ fuel') :
    Extends more (itemsWhile start item fuel) (itemsWhile start item fuel') := by
  induction fuel generalizing fuel' with
  | zero => exact .peek_throw _
  | succ fuel ih =>
      obtain ⟨n, rfl⟩ : ∃ n, fuel' = n + 1 := ⟨fuel' - 1, by omega⟩
      refine (isNext_extends hMore start).bind fun _ => .ite ?_ (.pure [])
      exact hItem.bind fun first => (ih (Nat.le_of_succ_le_succ hFuel)).bind fun _ => .pure _

theorem itemsAfter_extends (separator : Punctuator) {fuel fuel' : Nat} (hFuel : fuel ≤ fuel') :
    Extends more (itemsAfter separator item fuel) (itemsAfter separator item fuel') := by
  induction fuel generalizing fuel' with
  | zero => exact .peek_throw _
  | succ fuel ih =>
      obtain ⟨n, rfl⟩ : ∃ n, fuel' = n + 1 := ⟨fuel' - 1, by omega⟩
      refine (skip_extends hMore separator).bind fun _ => .ite ?_ (.pure [])
      exact hItem.bind fun first => (ih (Nat.le_of_succ_le_succ hFuel)).bind fun _ => .pure _

theorem separated_extends (separator : Punctuator) :
    Extends more (separated separator item) (separated separator item) :=
  (skip_extends hMore separator).bind fun _ => hItem.bind fun _ => .fuel fun _ _ hFuel =>
    (itemsAfter_extends hMore hItem separator hFuel).bind fun _ => .pure _

theorem entry_extends : Extends more (entry item) (entry item) :=
  (name_extends hMore).bind fun _ => (expect_extends hMore .colon).bind fun _ =>
    hItem.bind fun _ => .pure _

end Repetition

section Types

variable (hMore : more.BeginsType)
include hMore

omit hMore in
/-- Where only constants may stand, a variable fails. -/
theorem variableUse_extends {second : Parser Literal} :
    Extends more (variableUse true) second := by
  intro tokens a rest hRun
  match tokens with
  | .finished => cases hRun
  | .broken e => cases hRun
  | .next token .finished => cases hRun
  | .next token (.broken e) => cases hRun
  | .next token (.next token' more) => cases token' <;> cases hRun

theorem scalarLiteral_extends : Extends more (scalarLiteral true) (scalarLiteral true) := by
  refine .peek (fun token rest => ?_) fun a rest hRun => by cases hRun
  cases token with
  | punctuator p =>
      cases p with
      | dollar => exact variableUse_extends _
      | _ => exact Extends.throw _ _
  | _ => exact (advance_extendsAt hMore _ rest).bind fun _ => .pure _

theorem literal_extends (depth : Nat) : Extends more (literal true depth) (literal true depth) := by
  induction depth with
  | zero =>
      exact (isNext_extends hMore _).bind fun _ => (isNext_extends hMore _).bind fun _ =>
        .ite (.throw_bind _ _) (scalarLiteral_extends hMore)
  | succ depth ih =>
      refine (isNext_extends hMore _).bind fun _ => .ite ?_ ((isNext_extends hMore _).bind fun _ =>
        .ite ?_ (scalarLiteral_extends hMore))
      · exact (any_extends hMore ih _ _).bind fun _ => .pure _
      · exact (any_extends hMore (entry_extends hMore ih) _ _).bind fun _ => .pure _

theorem markedType_extends (type : TypeRef) : Extends more (markedType type) (markedType type) :=
  (skip_extends hMore .bang).bind fun _ => .ite (.pure _) (.pure _)

theorem typeRef_extends (depth : Nat) : Extends more (typeRef depth) (typeRef depth) := by
  have hNamed : Extends more (do markedType (.named (← name))) (do markedType (.named (← name))) :=
    (name_extends hMore).bind fun _ => markedType_extends hMore _
  induction depth with
  | zero => exact (isNext_extends hMore _).bind fun _ => .ite (.throw_bind _ _) hNamed
  | succ depth ih =>
      refine (skip_extends hMore _).bind fun _ => .ite ?_ hNamed
      exact ih.bind fun _ => (expect_extends hMore _).bind fun _ => markedType_extends hMore _

theorem constantDirectives_extends : Extends more constantDirectives constantDirectives := by
  have hArguments := optionalMany_extends hMore (entry_extends hMore (literal_extends hMore maxDepth))
    .parenLeft .parenRight
  have hDirective : Extends more (appliedDirective true maxDepth) (appliedDirective true maxDepth) :=
    (expect_extends hMore .at).bind fun _ => (name_extends hMore).bind fun _ =>
      hArguments.bind fun _ => .pure _
  exact .fuel fun _ _ hFuel => itemsWhile_extends hMore hDirective .at hFuel

/-- A description, where something has to follow it. -/
theorem described_extends {next next' : Option String → Parser α}
    (hNext : ∀ description, Extends more (next description) (next' description))
    (hEnd : ∀ p, (next none).run .finished ≠ .ok p) :
    Extends more (description >>= next) (description >>= next') := by
  intro tokens
  -- at the end of the tokens a description of more could be taken, but there `next` fails
  cases tokens with
  | finished => exact fun a rest hRun => (hEnd _ hRun).elim
  | broken e => exact fun a rest hRun => by cases hRun
  | next token rest =>
      have hDescription : ExtendsAt more (.next token rest) description description := by
        have hTaken (value : String) := (advance_extendsAt hMore token rest).bind
          fun _ => Extends.pure (some value)
        cases token with
        | text value => exact hTaken value
        | blockText value => exact hTaken value
        | _ => exact Extends.pure none _
      exact hDescription.bind hNext

theorem defaultValue_extends : Extends more defaultValue defaultValue :=
  (skip_extends hMore .equals).bind fun _ =>
    .ite ((literal_extends hMore maxDepth).bind fun _ => .pure _) (.pure none)

theorem inputValue_extends : Extends more inputValue inputValue := by
  refine described_extends hMore (fun description => ?_) (by rintro p ⟨⟩)
  exact (name_extends hMore).bind fun _ => (expect_extends hMore .colon).bind fun _ =>
    (typeRef_extends hMore maxDepth).bind fun _ => (defaultValue_extends hMore).bind fun _ =>
      (constantDirectives_extends hMore).bind fun _ => .pure _

theorem fieldDefinition_extends : Extends more fieldDefinition fieldDefinition := by
  have hArguments : Extends more argumentDefinitions argumentDefinitions :=
    optionalMany_extends hMore (inputValue_extends hMore) .parenLeft .parenRight
  refine described_extends hMore (fun description => ?_) (by rintro p ⟨⟩)
  exact (name_extends hMore).bind fun _ => hArguments.bind fun _ =>
    (expect_extends hMore .colon).bind fun _ => (typeRef_extends hMore maxDepth).bind fun _ =>
      (constantDirectives_extends hMore).bind fun _ => .pure _

theorem interfaces_extends : Extends more interfaces interfaces :=
  (skipKeyword_extends hMore (by decide)).bind fun _ =>
    .ite (separated_extends hMore (name_extends hMore) .ampersand) (.pure [])

/-- An object type is parsed in the same way in front of another type definition. -/
theorem objectType_extends : Extends more objectType objectType :=
  (name_extends hMore).bind fun _ => (interfaces_extends hMore).bind fun _ =>
    (constantDirectives_extends hMore).bind fun _ =>
      (optionalMany_extends hMore ((fieldDefinition_extends hMore).map Member.field) _ _).bind
        fun _ => .pure _

end Types

end Parser
end SchemaModels.Graphql
