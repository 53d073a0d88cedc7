import SchemaModels.Proofs.Graphql.Extension
import SchemaModels.Proofs.Graphql.Joined

/-!
Documents of type definitions, one behind the other. Such a document reads all of
its text, and another one behind it is read as if it stood alone.
-/
namespace SchemaModels.Graphql

namespace Tokens

/-- The tokens of a type definition, behind its description and the word for it. -/
inductive TypeHead : Tokens → Option String → Tokens → Prop where
  | plain (rest : Tokens) : TypeHead (.next (.name "type") rest) none rest
  | text (value : String) (rest : Tokens) :
      TypeHead (.next (.text value) (.next (.name "type") rest)) (some value) rest
  | blockText (value : String) (rest : Tokens) :
      TypeHead (.next (.blockText value) (.next (.name "type") rest)) (some value) rest

namespace TypeHead

variable {tokens rest : Tokens} {description : Option String}
  (h : TypeHead tokens description rest)
include h

theorem append (more : Tokens) :
    TypeHead (tokens.append more) description (rest.append more) := by
  cases h with
  | plain => exact .plain _
  | text value => exact .text value _
  | blockText value => exact .blockText value _

theorem beginsType : tokens.BeginsType := by
  cases h with
  | plain => exact .word _
  | text value => exact .text value _
  | blockText value => exact .blockText value _

theorem endsIn : tokens.EndsIn rest := by
  cases h with
  | plain => exact .next _ (.self _)
  | text value => exact .next _ (.next _ (.self _))
  | blockText value => exact .next _ (.next _ (.self _))

theorem size_lt : rest.size < tokens.size := by
  cases h with
  | plain => exact Nat.lt_succ_self _
  | text value => exact Nat.lt_succ_of_lt (Nat.lt_succ_self _)
  | blockText value => exact Nat.lt_succ_of_lt (Nat.lt_succ_self _)

end TypeHead

end Tokens

/-- The definition of an object type. -/
def Definition.IsObject (definition : Definition) : Prop :=
  ∃ description type, definition = .declaration description (.object type)

namespace Parser

variable {α β : Type} {more tokens rest : Tokens}

/-- A property of all results of a parser. -/
def Yields (parser : Parser α) (Q : α → Prop) : Prop :=
  ∀ tokens a rest, parser.run tokens = .ok (a, rest) → Q a

namespace Yields

variable {Q : α → Prop}

theorem pure {a : α} (h : Q a) : Yields (Pure.pure a) Q := by
  intro tokens a' rest hRun
  cases hRun
  exact h

theorem throw (e : SyntaxError) : Yields (throw e : Parser α) Q := by
  intro tokens a rest hRun
  cases hRun

/-- The last of some parsers gives the results. -/
theorem bind {R : β → Prop} {parser : Parser α} {next : α → Parser β}
    (h : ∀ a, Yields (next a) R) : Yields (parser >>= next) R := by
  intro tokens b rest hRun
  rw [StateT.run_bind, bind_eq_ok_iff] at hRun
  obtain ⟨⟨a, middle⟩, -, hSecond⟩ := hRun
  exact h a middle b rest hSecond

theorem ite {c : Prop} [Decidable c] {first second : Parser α} (hFirst : Yields first Q)
    (hSecond : Yields second Q) : Yields (if c then first else second) Q := by
  by_cases h : c
  · rw [if_pos h]
    exact hFirst
  · rw [if_neg h]
    exact hSecond

theorem unexpected : Yields (Parser.unexpected : Parser α) Q := bind fun _ => throw _

end Yields

/-- Only the word for a type begins an object type. -/
theorem declaration?_yields {word : String} (hWord : word ≠ "type") {parser : Parser Declaration}
    (h : declaration? word false = some parser) :
    Yields parser fun declared => ∀ type, declared ≠ .object type := by
  unfold declaration? at h
  split_ifs at h <;> cases h
  · exact .bind fun _ => .bind fun _ => .pure fun _ => by simp
  · exact .bind fun _ => .bind fun _ => .pure fun _ => by simp
  · exact .bind fun _ => .bind fun _ => .pure fun _ => by simp
  · exact .bind fun _ => .pure fun _ => by simp
  · exact .bind fun _ => .bind fun _ => .bind fun _ => .pure fun _ => by simp
  · exact .bind fun _ => .bind fun _ => .bind fun _ => .pure fun _ => by simp
  · exact .bind fun _ => .bind fun _ => .bind fun _ => .pure fun _ => by simp

theorem definitionOf_yields {word : String} (hWord : word ≠ "type")
    (description : Option String) :
    Yields (definitionOf description word) fun definition =>
      ∀ given type, definition ≠ .declaration given (.object type) := by
  unfold definitionOf
  split
  · rename_i parser hParser
    refine .bind fun _ => ?_
    intro tokens definition rest hRun
    rw [StateT.run_bind, bind_eq_ok_iff] at hRun
    obtain ⟨⟨declared, middle⟩, hDeclared, hPure⟩ := hRun
    cases hPure
    have hOther := declaration?_yields hWord hParser tokens declared middle hDeclared
    rintro given type ⟨⟩
    exact hOther type rfl
  · refine .ite (.bind fun _ => .bind fun _ => .pure fun _ _ => by simp)
      (.ite (.bind fun _ => .bind fun _ => .pure fun _ _ => by simp) ?_)
    split
    · exact .bind fun _ => .bind fun _ => .pure fun _ _ => by simp
    · refine .ite (.throw _) (.ite ?_ .unexpected)
      exact .bind fun _ => .bind fun _ => .pure fun _ _ => by simp

theorem definitionOf_type (description : Option String) : definitionOf description "type" = (do
    advance
    return .declaration description (.object (← objectType))) := by
  have hWord : declaration? "type" false = some (do return .object (← objectType)) := by
    simp [declaration?]
  simp [definitionOf, hWord]

/-- A definition, from behind its description on. -/
def definitionBehind (description : Option String) : Parser Definition := do
  match ← peek with
  | some (.name word) => definitionOf description word
  | some (.punctuator .braceLeft) => throw .describedShorthand
  | _ => unexpected

/-- A definition begins with a word, or with a text that describes it. -/
theorem definition_name (word : String) (rest : Tokens) :
    definition.run (.next (.name word) rest) =
      (definitionBehind none).run (.next (.name word) rest) := rfl

theorem definition_text (value : String) (token : Token) (rest : Tokens) :
    definition.run (.next (.text value) (.next token rest)) =
      (definitionBehind (some value)).run (.next token rest) := rfl

theorem definition_blockText (value : String) (token : Token) (rest : Tokens) :
    definition.run (.next (.blockText value) (.next token rest)) =
      (definitionBehind (some value)).run (.next token rest) := rfl

theorem definition_braceLeft (rest : Tokens) :
    definition.run (.next (.punctuator .braceLeft) rest) =
      (do return .operation ⟨none, .query, none, [], [], ← selections maxDepth⟩ :
        Parser Definition).run (.next (.punctuator .braceLeft) rest) := rfl

theorem definitionBehind_object_iff {description given : Option String} {type : ObjectType} :
    (definitionBehind description).run tokens = .ok (.declaration given (.object type), rest) ↔
      description = given ∧ ∃ middle, tokens = .next (.name "type") middle ∧
        objectType.run middle = .ok (type, rest) := by
  have hType (middle : Tokens) : (definitionBehind description).run (.next (.name "type") middle) =
      (do return .declaration description (.object (← objectType)) : Parser Definition).run
        middle := by
    have hWord : (definitionBehind description).run (.next (.name "type") middle) =
        (definitionOf description "type").run (.next (.name "type") middle) := rfl
    rw [hWord, definitionOf_type]
    cases middle <;> rfl
  constructor
  · intro hRun
    match tokens with
    | .finished => cases hRun
    | .broken e => cases hRun
    | .next token middle =>
        by_cases hToken : token = .name "type"
        · subst hToken
          rw [hType, StateT.run_bind, bind_eq_ok_iff] at hRun
          obtain ⟨⟨parsed, after⟩, hParsed, hPure⟩ := hRun
          cases hPure
          exact ⟨rfl, middle, rfl, hParsed⟩
        · -- no other word yields an object type, and no other token a definition at all
          cases token with
          | name word =>
              have hWord : word ≠ "type" := by
                rintro rfl
                exact hToken rfl
              exact (definitionOf_yields hWord description _ _ _ hRun _ _ rfl).elim
          | punctuator p => cases p <;> cases hRun
          | _ => cases hRun
  · rintro ⟨rfl, middle, rfl, hRun⟩
    rw [hType, StateT.run_bind, bind_eq_ok_iff]
    exact ⟨_, hRun, rfl⟩

/-- An object type is defined by a description, if it has one, the word for a type,
and what follows it. -/
theorem definition_object_iff {given : Option String} {type : ObjectType} :
    definition.run tokens = .ok (.declaration given (.object type), rest) ↔
      ∃ middle, tokens.TypeHead given middle ∧ objectType.run middle = .ok (type, rest) := by
  constructor
  · intro hRun
    match tokens with
    | .finished => cases hRun
    | .broken e => cases hRun
    | .next (.punctuator p) others =>
        cases p with
        | braceLeft =>
            rw [definition_braceLeft, StateT.run_bind, bind_eq_ok_iff] at hRun
            obtain ⟨_, -, hOperation⟩ := hRun
            cases hOperation
        | _ => cases hRun
    | .next (.name word) others =>
        rw [definition_name, definitionBehind_object_iff] at hRun
        obtain ⟨rfl, middle, hTokens, hRun⟩ := hRun
        cases hTokens
        exact ⟨_, .plain _, hRun⟩
    | .next (.text value) .finished => cases hRun
    | .next (.text value) (.broken e) => cases hRun
    | .next (.text value) (.next token others) =>
        rw [definition_text, definitionBehind_object_iff] at hRun
        obtain ⟨rfl, middle, hTokens, hRun⟩ := hRun
        cases hTokens
        exact ⟨_, .text value _, hRun⟩
    | .next (.blockText value) .finished => cases hRun
    | .next (.blockText value) (.broken e) => cases hRun
    | .next (.blockText value) (.next token others) =>
        rw [definition_blockText, definitionBehind_object_iff] at hRun
        obtain ⟨rfl, middle, hTokens, hRun⟩ := hRun
        cases hTokens
        exact ⟨_, .blockText value _, hRun⟩
    | .next (.integer n) others => cases hRun
    | .next (.float x) others => cases hRun
  · rintro ⟨middle, hHead, hRun⟩
    cases hHead with
    | plain =>
        rw [definition_name]
        exact definitionBehind_object_iff.mpr ⟨rfl, middle, rfl, hRun⟩
    | text value =>
        rw [definition_text]
        exact definitionBehind_object_iff.mpr ⟨rfl, middle, rfl, hRun⟩
    | blockText value =>
        rw [definition_blockText]
        exact definitionBehind_object_iff.mpr ⟨rfl, middle, rfl, hRun⟩

/-- What an object type leaves behind. -/
theorem definition_endsIn {definition : Definition} (hObject : definition.IsObject)
    (hRun : Parser.definition.run tokens = .ok (definition, rest)) :
    tokens.EndsIn rest ∧ rest.size < tokens.size := by
  obtain ⟨given, type, rfl⟩ := hObject
  obtain ⟨middle, hHead, hType⟩ := definition_object_iff.mp hRun
  have hEnds := (objectType_extends (.word .finished) middle type rest hType).1
  exact ⟨hHead.endsIn.trans hEnds, Nat.lt_of_le_of_lt hEnds.size_le hHead.size_lt⟩

theorem definition_beginsType {definition : Definition} (hObject : definition.IsObject)
    (hRun : Parser.definition.run tokens = .ok (definition, rest)) : tokens.BeginsType := by
  obtain ⟨given, type, rfl⟩ := hObject
  obtain ⟨middle, hHead, -⟩ := definition_object_iff.mp hRun
  exact hHead.beginsType

/-- An object type is defined in the same way in front of another one. -/
theorem definition_append {definition : Definition} (hObject : definition.IsObject)
    (hRun : Parser.definition.run tokens = .ok (definition, rest)) (hMore : more.BeginsType) :
    Parser.definition.run (tokens.append more) = .ok (definition, rest.append more) := by
  obtain ⟨given, type, rfl⟩ := hObject
  obtain ⟨middle, hHead, hType⟩ := definition_object_iff.mp hRun
  exact definition_object_iff.mpr
    ⟨_, hHead.append more, (objectType_extends hMore middle type rest hType).2⟩

/-- Tokens that define object types, one behind the other up to the end. -/
inductive Defines : Tokens → List Definition → Prop where
  | nil : Defines .finished []
  | cons {tokens rest : Tokens} {first : Definition} {others : List Definition}
      (hObject : first.IsObject) (hRun : definition.run tokens = .ok (first, rest))
      (hRest : Defines rest others) : Defines tokens (first :: others)

namespace Defines

variable {first second : Tokens} {firsts seconds : List Definition}

theorem complete (h : Defines first firsts) : first.Complete := by
  induction h with
  | nil => trivial
  | cons hObject hRun _ ih => exact (definition_endsIn hObject hRun).1.complete_iff.mpr ih

theorem isObject (h : Defines first firsts) : ∀ definition ∈ firsts, definition.IsObject := by
  induction h with
  | nil => exact List.forall_mem_nil _
  | cons hObject _ _ ih => exact List.forall_mem_cons.mpr ⟨hObject, ih⟩

/-- What is defined by tokens is defined in front of others as well. -/
theorem append (hFirst : Defines first firsts) (hSecond : Defines second seconds) :
    Defines (first.append second) (firsts ++ seconds) := by
  -- the first of the definitions behind has to begin a type at every step of the induction
  cases hSecond with
  | nil =>
      rw [Tokens.append_finished, List.append_nil]
      exact hFirst
  | cons hObject' hRun' hRest' =>
      induction hFirst with
      | nil => exact .cons hObject' hRun' hRest'
      | cons hObject hRun _ ih =>
          have hMore := definition_beginsType hObject' hRun'
          exact .cons hObject (definition_append hObject hRun hMore) ih

end Defines

/-- A result in front of others. -/
theorem run_cons_iff {first : Parser α} {others : Parser (List α)} {results : List α} :
    (do return (← first) :: (← others) : Parser (List α)).run tokens = .ok (results, rest) ↔
      ∃ a as middle, results = a :: as ∧ first.run tokens = .ok (a, middle) ∧
        others.run middle = .ok (as, rest) := by
  simp only [StateT.run_bind, bind_eq_ok_iff, Prod.exists]
  constructor
  · rintro ⟨a, middle, hFirst, as, middle', hOthers, hPure⟩
    cases hPure
    exact ⟨a, as, middle, rfl, hFirst, hOthers⟩
  · rintro ⟨a, as, middle, rfl, hFirst, hOthers⟩
    exact ⟨a, middle, hFirst, as, rest, hOthers, rfl⟩

/-- Definitions up to the end: there is none, or a first one in front of others. -/
theorem definitionsToEnd_next (fuel : Nat) (token : Token) (tokens : Tokens) :
    (definitionsToEnd (fuel + 1)).run (.next token tokens) =
      (do return (← definition) :: (← definitionsToEnd fuel)).run (.next token tokens) := rfl

theorem definitionsToEnd_nil_iff {fuel : Nat} :
    (definitionsToEnd (fuel + 1)).run tokens = .ok ([], rest) ↔
      tokens = .finished ∧ rest = .finished := by
  constructor
  · intro hRun
    cases tokens with
    | finished =>
        cases hRun
        exact ⟨rfl, rfl⟩
    | broken e => cases hRun
    | next token others =>
        rw [definitionsToEnd_next, run_cons_iff] at hRun
        obtain ⟨_, _, _, hNil, -⟩ := hRun
        cases hNil
  · rintro ⟨rfl, rfl⟩
    rfl

theorem definitionsToEnd_cons_iff {fuel : Nat} {first : Definition} {others : List Definition} :
    (definitionsToEnd (fuel + 1)).run tokens = .ok (first :: others, rest) ↔
      ∃ middle, definition.run tokens = .ok (first, middle) ∧
        (definitionsToEnd fuel).run middle = .ok (others, rest) := by
  cases tokens with
  | finished =>
      refine iff_of_false (fun hRun => by cases hRun) ?_
      rintro ⟨middle, hRun, -⟩
      cases hRun
  | broken e =>
      refine iff_of_false (fun hRun => by cases hRun) ?_
      rintro ⟨middle, hRun, -⟩
      cases hRun
  | next token tokens =>
      rw [definitionsToEnd_next, run_cons_iff]
      constructor
      · rintro ⟨_, _, middle, hResults, hFirst, hOthers⟩
        cases hResults
        exact ⟨middle, hFirst, hOthers⟩
      · rintro ⟨middle, hFirst, hOthers⟩
        exact ⟨first, others, middle, rfl, hFirst, hOthers⟩

/-- The definitions of a document, if all of them are object types. The bound is that
of their tokens. -/
theorem definitionsToEnd_iff {definitions : List Definition} {fuel : Nat}
    (hFuel : tokens.size < fuel) (hObjects : ∀ definition ∈ definitions, definition.IsObject) :
    (definitionsToEnd fuel).run tokens = .ok (definitions, rest) ↔
      rest = .finished ∧ Defines tokens definitions := by
  obtain ⟨fuel, rfl⟩ : ∃ n, fuel = n + 1 := ⟨fuel - 1, by omega⟩
  induction definitions generalizing tokens fuel with
  | nil =>
      rw [definitionsToEnd_nil_iff]
      constructor
      · rintro ⟨rfl, rfl⟩
        exact ⟨rfl, .nil⟩
      · rintro ⟨rfl, hDefines⟩
        cases hDefines
        exact ⟨rfl, rfl⟩
  | cons first others ih =>
      obtain ⟨hFirst, hOthers⟩ := List.forall_mem_cons.mp hObjects
      -- every definition takes a token, so that one less of the bound does for the rest
      have hRest (middle : Tokens) (hRun : definition.run tokens = .ok (first, middle)) :
          (definitionsToEnd fuel).run middle = .ok (others, rest) ↔
            rest = .finished ∧ Defines middle others := by
        have hSize := (definition_endsIn hFirst hRun).2
        obtain ⟨fuel, rfl⟩ : ∃ n, fuel = n + 1 := ⟨fuel - 1, by omega⟩
        exact ih hOthers fuel (by omega)
      rw [definitionsToEnd_cons_iff]
      constructor
      · rintro ⟨middle, hRun, hMiddle⟩
        obtain ⟨rfl, hDefines⟩ := (hRest middle hRun).mp hMiddle
        exact ⟨rfl, .cons hFirst hRun hDefines⟩
      · rintro ⟨rfl, hDefines⟩
        cases hDefines with
        | cons _ hRun hDefines => exact ⟨_, hRun, (hRest _ hRun).mpr ⟨rfl, hDefines⟩⟩

/-- A document is a definition and those behind it. -/
theorem document_run_iff {document : Document} :
    Parser.document.run tokens = .ok (document, rest) ↔
      ∃ first others middle, document = ⟨first :: others⟩ ∧
        definition.run tokens = .ok (first, middle) ∧
        (definitionsToEnd (middle.size + 1)).run middle = .ok (others, rest) := by
  have hBehind (first : Definition) (middle : Tokens) :
      (do return ⟨first :: (← definitionsToEnd (← fuel))⟩ : Parser Document).run middle =
        (do return ⟨first :: (← definitionsToEnd (middle.size + 1))⟩ : Parser Document).run
          middle := rfl
  rw [Parser.document, StateT.run_bind, bind_eq_ok_iff]
  constructor
  · rintro ⟨⟨first, middle⟩, hFirst, hOthers⟩
    rw [hBehind, StateT.run_bind, bind_eq_ok_iff] at hOthers
    obtain ⟨⟨others, rest⟩, hOthers, hPure⟩ := hOthers
    cases hPure
    exact ⟨first, others, middle, rfl, hFirst, hOthers⟩
  · rintro ⟨first, others, middle, rfl, hFirst, hOthers⟩
    refine ⟨_, hFirst, ?_⟩
    rw [hBehind, StateT.run_bind, bind_eq_ok_iff]
    exact ⟨_, hOthers, rfl⟩

end Parser

theorem Document.parse_eq_ok_iff {source : String} {document : Document} :
    Document.parse source = .ok document ↔
      ∃ rest, Parser.document.run (Tokens.ofText source) = .ok (document, rest) := by
  have hRun : Document.parse source =
      Prod.fst <$> Parser.document.run (Tokens.ofText source) := rfl
  rw [hRun]
  cases Parser.document.run (Tokens.ofText source) with
  | ok result => simp [Prod.ext_iff]
  | error e => simp

/-- A document of object types: they are all of its text. -/
theorem Document.parse_objects_iff {source : String} {definitions : List Definition}
    (hObjects : ∀ definition ∈ definitions, definition.IsObject) :
    Document.parse source = .ok ⟨definitions⟩ ↔
      definitions ≠ [] ∧ Parser.Defines (Tokens.ofText source) definitions := by
  simp only [Document.parse_eq_ok_iff, Parser.document_run_iff]
  generalize Tokens.ofText source = tokens
  constructor
  · rintro ⟨rest, first, others, middle, hDefinitions, hFirst, hOthers⟩
    cases hDefinitions
    obtain ⟨hObject, hObjects⟩ := List.forall_mem_cons.mp hObjects
    have hRest := (Parser.definitionsToEnd_iff (Nat.lt_succ_self _) hObjects).mp hOthers
    exact ⟨List.cons_ne_nil _ _, .cons hObject hFirst hRest.2⟩
  · rintro ⟨hSome, hDefines⟩
    cases hDefines with
    | nil => exact absurd rfl hSome
    | cons hObject hFirst hRest =>
        have hOthers := (Parser.definitionsToEnd_iff (Nat.lt_succ_self _) hRest.isObject).mpr
          ⟨rfl, hRest⟩
        exact ⟨.finished, _, _, _, rfl, hFirst, hOthers⟩

end SchemaModels.Graphql
