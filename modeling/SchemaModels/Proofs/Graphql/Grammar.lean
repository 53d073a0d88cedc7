import SchemaModels.Graphql.Parser
import SchemaModels.Proofs.Graphql.Shape

/-!
What the grammar makes of well-formed tokens. `Ensures` says of a parser that
its results have a property and that the tokens behind them are still
well-formed; each parser of the grammar has one such lemma, put together from
those of its parts.
-/
namespace SchemaModels.Graphql

namespace Parser

variable {α β : Type}

/-- A property of everything that a parser makes of well-formed tokens. -/
def Ensures (parser : Parser α) (Q : α → Prop) : Prop :=
  ∀ tokens a rest, tokens.WellFormed → parser.run tokens = .ok (a, rest) →
    rest.WellFormed ∧ Q a

/-- Nothing is said of the results. -/
abbrev Keeps (parser : Parser α) : Prop := Ensures parser fun _ => True

namespace Ensures

variable {P Q : α → Prop} {R : β → Prop} {parser : Parser α}

theorem pure {a : α} (h : Q a) : Ensures (Pure.pure a) Q := by
  intro tokens a' rest hTokens hRun
  cases hRun
  exact ⟨hTokens, h⟩

theorem throw (e : SyntaxError) : Ensures (throw e : Parser α) Q := by
  intro tokens a rest _ hRun
  cases hRun

/-- Nothing comes after a failure. -/
theorem throw_bind (e : SyntaxError) (next : α → Parser β) :
    Ensures ((MonadExcept.throw e : Parser α) >>= next) R := by
  intro tokens b rest _ hRun
  cases hRun

theorem bind {next : α → Parser β} (h : Ensures parser P) (hNext : ∀ a, P a → Ensures (next a) R) :
    Ensures (parser >>= next) R := by
  intro tokens b rest hTokens hRun
  rw [StateT.run_bind, bind_eq_ok_iff] at hRun
  obtain ⟨⟨a, middle⟩, hFirst, hSecond⟩ := hRun
  obtain ⟨hMiddle, ha⟩ := h tokens a middle hTokens hFirst
  exact hNext a ha middle b rest hMiddle hSecond

theorem mono (h : Ensures parser P) (hImp : ∀ a, P a → Q a) : Ensures parser Q :=
  fun tokens a rest hTokens hRun =>
    (h tokens a rest hTokens hRun).imp id (hImp a)

theorem keeps (h : Ensures parser P) : Keeps parser := h.mono fun _ _ => trivial

theorem pure_keeps (a : α) : Keeps (Pure.pure a) := .pure trivial

/-- One parser after another, of which nothing but the last matters. -/
theorem seq {next : α → Parser β} (h : Ensures parser P) (hNext : ∀ a, Ensures (next a) R) :
    Ensures (parser >>= next) R :=
  h.bind fun a _ => hNext a

theorem map (h : Ensures parser P) {f : α → β} (hImp : ∀ a, P a → R (f a)) :
    Ensures (f <$> parser) R := by
  rw [map_eq_pure_bind]
  exact h.bind fun a ha => pure (hImp a ha)

theorem ite {c : Prop} [Decidable c] {first second : Parser α} (hFirst : c → Ensures first Q)
    (hSecond : ¬c → Ensures second Q) : Ensures (if c then first else second) Q := by
  by_cases h : c
  · rw [if_pos h]
    exact hFirst h
  · rw [if_neg h]
    exact hSecond h

end Ensures

theorem peek_ensures : Ensures peek fun token => ∀ t ∈ token, t.WellFormed := by
  intro tokens a rest hTokens hRun
  cases tokens with
  | finished =>
      cases hRun
      exact ⟨trivial, fun t ht => by cases ht⟩
  | broken e => cases hRun
  | next token more =>
      cases hRun
      refine ⟨hTokens, fun t ht => ?_⟩
      cases ht
      exact hTokens.1

theorem advance_keeps : Keeps advance := by
  intro tokens a rest hTokens hRun
  cases tokens with
  | finished =>
      cases hRun
      exact ⟨trivial, trivial⟩
  | broken e =>
      cases hRun
      exact ⟨trivial, trivial⟩
  | next token more =>
      cases more with
      | broken e => cases hRun
      | finished =>
          cases hRun
          exact ⟨trivial, trivial⟩
      | next token' more =>
          cases hRun
          exact ⟨hTokens.2, trivial⟩

theorem unexpected_ensures {Q : α → Prop} : Ensures unexpected Q :=
  peek_ensures.seq fun _ => .throw _

theorem isNext_keeps (p : Punctuator) : Keeps (isNext p) :=
  peek_ensures.seq fun _ => .pure trivial

theorem skip_keeps (p : Punctuator) : Keeps (skip p) := by
  refine (isNext_keeps p).seq fun b => .ite (fun _ => ?_) fun _ => .pure trivial
  exact advance_keeps.seq fun _ => .pure trivial

theorem expect_keeps (p : Punctuator) : Keeps (expect p) := by
  refine (skip_keeps p).seq fun b => .ite (fun _ => ?_) fun _ => .pure trivial
  exact peek_ensures.seq fun _ => .throw _

theorem name_ensures : Ensures name IsName := by
  refine peek_ensures.bind fun token hToken => ?_
  split
  · rename_i value
    exact advance_keeps.seq fun _ => .pure (hToken _ rfl)
  · exact .throw _

theorem skipKeyword_keeps (word : String) : Keeps (skipKeyword word) := by
  refine peek_ensures.seq fun token => .ite (fun _ => ?_) fun _ => .pure trivial
  exact advance_keeps.seq fun _ => .pure trivial

theorem keyword_keeps (word : String) : Keeps (keyword word) := by
  refine (skipKeyword_keeps word).seq fun b => .ite (fun _ => ?_) fun _ => .pure trivial
  exact peek_ensures.seq fun _ => .throw _

theorem fuel_keeps : Keeps fuel := by
  intro tokens a rest hTokens hRun
  cases hRun
  exact ⟨hTokens, trivial⟩

section Repetition

variable {item : Parser α} {Q : α → Prop}

theorem itemsUntil_ensures (close : Punctuator) (h : Ensures item Q) (fuel : Nat) :
    Ensures (itemsUntil close item fuel) fun items => ∀ a ∈ items, Q a := by
  induction fuel with
  | zero => exact unexpected_ensures
  | succ fuel ih =>
      refine (skip_keeps close).seq fun b => .ite (fun _ => .pure (by simp)) fun _ => ?_
      refine h.bind fun a ha => ih.bind fun items hItems => .pure ?_
      exact List.forall_mem_cons.mpr ⟨ha, hItems⟩

theorem any_ensures (opening close : Punctuator) (h : Ensures item Q) :
    Ensures (any opening close item) fun items => ∀ a ∈ items, Q a :=
  (expect_keeps opening).seq fun _ => fuel_keeps.seq fun fuel => itemsUntil_ensures close h fuel

theorem many_ensures (opening close : Punctuator) (h : Ensures item Q) :
    Ensures (many opening close item) fun items => ∀ a ∈ items, Q a := by
  refine (expect_keeps opening).seq fun _ => h.bind fun a ha => fuel_keeps.seq fun fuel => ?_
  refine (itemsUntil_ensures close h fuel).bind fun items hItems => .pure ?_
  exact List.forall_mem_cons.mpr ⟨ha, hItems⟩

theorem optionalMany_ensures (opening close : Punctuator) (h : Ensures item Q) :
    Ensures (optionalMany opening close item) fun items => ∀ a ∈ items, Q a :=
  (isNext_keeps opening).seq fun _ =>
    .ite (fun _ => many_ensures opening close h) fun _ => .pure (by simp)

theorem itemsWhile_ensures (start : Punctuator) (h : Ensures item Q) (fuel : Nat) :
    Ensures (itemsWhile start item fuel) fun items => ∀ a ∈ items, Q a := by
  induction fuel with
  | zero => exact unexpected_ensures
  | succ fuel ih =>
      refine (isNext_keeps start).seq fun b => .ite (fun _ => ?_) fun _ => .pure (by simp)
      refine h.bind fun a ha => ih.bind fun items hItems => .pure ?_
      exact List.forall_mem_cons.mpr ⟨ha, hItems⟩

theorem itemsAfter_keeps (separator : Punctuator) (h : Keeps item) (fuel : Nat) :
    Keeps (itemsAfter separator item fuel) := by
  induction fuel with
  | zero => exact unexpected_ensures
  | succ fuel ih =>
      refine (skip_keeps separator).seq fun b => .ite (fun _ => ?_) fun _ => .pure trivial
      exact h.seq fun _ => ih.seq fun _ => .pure trivial

theorem separated_keeps (separator : Punctuator) (h : Keeps item) :
    Keeps (separated separator item) :=
  (skip_keeps separator).seq fun _ => h.seq fun _ => fuel_keeps.seq fun fuel =>
    (itemsAfter_keeps separator h fuel).seq fun _ => .pure trivial

end Repetition

/-! Literals, types and directives. -/

theorem entry_ensures {value : Parser α} {Q : α → Prop} (h : Ensures value Q) :
    Ensures (entry value) fun e => IsName e.1 ∧ Q e.2 :=
  name_ensures.bind fun _ hName => (expect_keeps .colon).seq fun _ =>
    h.bind fun _ ha => .pure ⟨hName, ha⟩

theorem variableUse_ensures (constant : Bool) :
    Ensures (variableUse constant) (Literal.WellFormed constant) := by
  refine peek_ensures.seq fun dollar => advance_keeps.seq fun _ => .ite (fun _ => ?_) fun hc => ?_
  · refine peek_ensures.seq fun token => ?_
    split <;> exact .throw _
  · refine name_ensures.bind fun value hName => .pure ?_
    exact ⟨by simpa using hc, hName⟩

theorem namedLiteral_wellFormed (constant : Bool) {word : String} (h : IsName word) :
    (namedLiteral word).WellFormed constant := by
  unfold namedLiteral
  split_ifs
  · trivial
  · trivial
  · trivial
  · exact h

theorem scalarLiteral_ensures (constant : Bool) :
    Ensures (scalarLiteral constant) (Literal.WellFormed constant) := by
  refine peek_ensures.bind fun token hToken => ?_
  split
  · exact advance_keeps.seq fun _ => .pure (hToken _ rfl)
  · exact advance_keeps.seq fun _ => .pure (hToken _ rfl)
  · exact advance_keeps.seq fun _ => .pure trivial
  · exact advance_keeps.seq fun _ => .pure trivial
  · exact advance_keeps.seq fun _ => .pure (namedLiteral_wellFormed constant (hToken _ rfl))
  · exact variableUse_ensures constant
  · exact .throw _

theorem literal_ensures (constant : Bool) (depth : Nat) :
    Ensures (literal constant depth) (Literal.WellFormed constant) := by
  induction depth with
  | zero =>
      refine (isNext_keeps _).seq fun _ => (isNext_keeps _).seq fun _ => .ite (fun _ => ?_) fun _ => ?_
      · exact .throw_bind _ _
      · exact scalarLiteral_ensures constant
  | succ depth ih =>
      refine (isNext_keeps _).seq fun _ => .ite (fun _ => ?_) fun _ =>
        (isNext_keeps _).seq fun _ => .ite (fun _ => ?_) fun _ => scalarLiteral_ensures constant
      · refine (any_ensures .bracketLeft .bracketRight ih).bind fun items hItems => .pure ?_
        exact Literal.itemLeaves_iff.mpr hItems
      · refine (any_ensures .braceLeft .braceRight (entry_ensures ih)).bind
          fun fields hFields => .pure ?_
        exact Literal.fieldLeaves_iff.mpr fun field hField => (hFields field hField).2

/-- A type in front of a mark is not marked already, as only names and lists are
offered to it. -/
theorem markedType_ensures {type : TypeRef} (h : type.WellFormed)
    (hBare : ∀ inner, type ≠ .nonNull inner) : Ensures (markedType type) TypeRef.WellFormed :=
  (skip_keeps .bang).seq fun _ => .ite (fun _ => .pure ⟨h, hBare⟩) fun _ => .pure h

theorem namedType_ensures :
    Ensures (do markedType (.named (← name))) TypeRef.WellFormed :=
  name_ensures.bind fun _ hName => markedType_ensures hName fun _ h => by cases h

theorem typeRef_ensures (depth : Nat) : Ensures (typeRef depth) TypeRef.WellFormed := by
  induction depth with
  | zero =>
      refine (isNext_keeps _).seq fun _ => .ite (fun _ => ?_) fun _ => namedType_ensures
      exact .throw_bind _ _
  | succ depth ih =>
      refine (skip_keeps _).seq fun _ => .ite (fun _ => ?_) fun _ => namedType_ensures
      refine ih.bind fun item hItem => (expect_keeps _).seq fun _ => ?_
      have hList : (TypeRef.list item).WellFormed := hItem
      exact markedType_ensures hList fun _ h => by cases h

theorem arguments_ensures (constant : Bool) (depth : Nat) :
    Ensures (arguments constant depth) (WellFormedEntries constant) :=
  optionalMany_ensures _ _ (entry_ensures (literal_ensures constant depth))

theorem appliedDirective_ensures (constant : Bool) (depth : Nat) :
    Ensures (appliedDirective constant depth) (AppliedDirective.WellFormed constant) :=
  (expect_keeps .at).seq fun _ => name_ensures.bind fun _ hName =>
    (arguments_ensures constant depth).bind fun _ hArguments => .pure ⟨hName, hArguments⟩

theorem directives_ensures (constant : Bool) (depth : Nat) :
    Ensures (directives constant depth) fun applied =>
      ∀ a ∈ applied, AppliedDirective.WellFormed constant a :=
  fuel_keeps.seq fun fuel => itemsWhile_ensures .at (appliedDirective_ensures constant depth) fuel

theorem constantDirectives_ensures :
    Ensures constantDirectives fun applied => ∀ a ∈ applied, AppliedDirective.WellFormed true a :=
  directives_ensures true maxDepth

theorem description_keeps : Keeps description := by
  refine peek_ensures.seq fun token => ?_
  split
  · exact advance_keeps.seq fun _ => .pure trivial
  · exact advance_keeps.seq fun _ => .pure trivial
  · exact .pure trivial

/-! Declarations. -/

theorem defaultValue_keeps : Keeps defaultValue :=
  (skip_keeps .equals).seq fun _ => .ite
    (fun _ => (literal_ensures true maxDepth).seq fun _ => .pure trivial) fun _ => .pure trivial

theorem inputValue_keeps : Keeps inputValue :=
  description_keeps.seq fun _ => name_ensures.seq fun _ => (expect_keeps .colon).seq fun _ =>
    (typeRef_ensures maxDepth).seq fun _ => defaultValue_keeps.seq fun _ =>
      constantDirectives_ensures.seq fun _ => .pure trivial

theorem argumentDefinitions_keeps : Keeps argumentDefinitions :=
  (optionalMany_ensures _ _ inputValue_keeps).keeps

theorem fieldDefinition_ensures :
    Ensures fieldDefinition fun definition => (Member.field definition).WellFormed true :=
  description_keeps.seq fun _ => name_ensures.bind fun _ hName =>
    argumentDefinitions_keeps.seq fun _ => (expect_keeps .colon).seq fun _ =>
      (typeRef_ensures maxDepth).bind fun _ hType =>
        constantDirectives_ensures.bind fun _ hDirectives => .pure ⟨hName, hType, hDirectives⟩

theorem interfaces_keeps : Keeps interfaces :=
  (skipKeyword_keeps _).seq fun _ => .ite
    (fun _ => separated_keeps .ampersand name_ensures.keeps) fun _ => .pure trivial

theorem objectType_ensures : Ensures objectType (ObjectType.WellFormed true) :=
  name_ensures.bind fun _ hName => interfaces_keeps.seq fun _ =>
    constantDirectives_ensures.bind fun _ hDirectives =>
      (optionalMany_ensures _ _ (fieldDefinition_ensures.map fun _ h => h)).bind
        fun _ hFields => .pure ⟨hName, hDirectives, hFields⟩

theorem enumValue_keeps : Keeps enumValue := by
  refine description_keeps.seq fun _ => peek_ensures.seq fun token => ?_
  extract_lets valueFrom
  have hValue : Keeps (valueFrom ()) :=
    name_ensures.seq fun _ => constantDirectives_ensures.seq fun _ => .pure trivial
  split
  · exact .ite (fun _ => .throw_bind _ _) fun _ => hValue
  · exact hValue

theorem operationKind_keeps : Keeps operationKind := by
  refine peek_ensures.seq fun token => name_ensures.seq fun word => ?_
  split
  · exact .pure trivial
  · exact .throw _

theorem operationType_keeps : Keeps operationType :=
  operationKind_keeps.seq fun _ => (expect_keeps .colon).seq fun _ =>
    name_ensures.seq fun _ => .pure trivial

theorem unionMembers_keeps : Keeps unionMembers :=
  (skip_keeps .equals).seq fun _ => .ite
    (fun _ => separated_keeps .pipe name_ensures.keeps) fun _ => .pure trivial

/-- Only an object type is looked into. -/
theorem declaration?_ensures {word : String} {extending : Bool} {parser : Parser Declaration}
    (h : declaration? word extending = some parser) (description : Option String) :
    Ensures parser fun declared => (Definition.declaration description declared).WellFormed true := by
  unfold declaration? at h
  split_ifs at h <;> cases h
  · exact constantDirectives_ensures.seq fun _ =>
      (optionalMany_ensures _ _ operationType_keeps).seq fun _ => .pure trivial
  · exact constantDirectives_ensures.seq fun _ =>
      (many_ensures _ _ operationType_keeps).seq fun _ => .pure trivial
  · exact name_ensures.seq fun _ => constantDirectives_ensures.seq fun _ => .pure trivial
  · exact objectType_ensures.bind fun _ hType => .pure hType
  · exact objectType_ensures.seq fun _ => .pure trivial
  · exact name_ensures.seq fun _ => constantDirectives_ensures.seq fun _ =>
      unionMembers_keeps.seq fun _ => .pure trivial
  · exact name_ensures.seq fun _ => constantDirectives_ensures.seq fun _ =>
      (optionalMany_ensures _ _ enumValue_keeps).seq fun _ => .pure trivial
  · exact name_ensures.seq fun _ => constantDirectives_ensures.seq fun _ =>
      (optionalMany_ensures _ _ inputValue_keeps).seq fun _ => .pure trivial

theorem extension_keeps : Keeps extension := by
  refine peek_ensures.seq fun token => ?_
  dsimp only
  split
  · exact unexpected_ensures
  · rename_i parser hParser
    refine advance_keeps.seq fun _ => (declaration?_ensures hParser none).seq fun extended => ?_
    exact .ite (fun _ => .pure trivial) fun _ => unexpected_ensures

theorem directiveLocation_keeps : Keeps directiveLocation :=
  peek_ensures.seq fun _ => name_ensures.seq fun _ => .ite (fun _ => .pure trivial) fun _ => .throw _

theorem directiveDefinition_keeps : Keeps directiveDefinition :=
  (expect_keeps .at).seq fun _ => name_ensures.seq fun _ => argumentDefinitions_keeps.seq fun _ =>
    constantDirectives_ensures.seq fun _ => (skipKeyword_keeps _).seq fun _ =>
      (keyword_keeps _).seq fun _ => (separated_keeps .pipe directiveLocation_keeps).seq fun _ =>
        .pure trivial

/-! Operations and fragments. -/

theorem fragmentName_keeps : Keeps fragmentName :=
  peek_ensures.seq fun _ => .ite
    (fun _ => (unexpected_ensures (Q := fun _ => True)).seq fun _ => name_ensures.keeps)
    fun _ => name_ensures.keeps

theorem typeCondition_keeps : Keeps typeCondition :=
  (skipKeyword_keeps _).seq fun _ => .ite (fun _ => name_ensures.seq fun _ => .pure trivial)
    fun _ => .pure trivial

section Selections

variable {inner : Parser (List Selection)}

theorem spread_keeps (depth : Nat) (h : Keeps inner) : Keeps (spread depth inner) := by
  refine typeCondition_keeps.seq fun condition => peek_ensures.seq fun token => ?_
  split
  · exact fragmentName_keeps.seq fun _ => (directives_ensures false depth).seq fun _ => .pure trivial
  · exact (directives_ensures false depth).seq fun _ => h.seq fun _ => .pure trivial

theorem fieldSelection_keeps (depth : Nat) (h : Keeps inner) :
    Keeps (fieldSelection depth inner) := by
  refine name_ensures.seq fun first => (skip_keeps .colon).seq fun hasSecond => ?_
  extract_lets fieldFrom
  have hField (second : Option String) : Keeps (fieldFrom second) := by
    refine (arguments_ensures false depth).seq fun arguments =>
      (directives_ensures false depth).seq fun directives => (isNext_keeps _).seq fun hasInner => ?_
    extract_lets selectionFrom
    have hSelection (inner : Option (List Selection)) : Keeps (selectionFrom inner) := by
      cases second with
      | none => exact .pure trivial
      | some name => exact .pure trivial
    exact .ite (fun _ => h.seq fun _ => (Ensures.pure_keeps _).seq hSelection)
      fun _ => (Ensures.pure_keeps _).seq hSelection
  exact .ite (fun _ => name_ensures.seq fun _ => (Ensures.pure_keeps _).seq hField)
    fun _ => (Ensures.pure_keeps _).seq hField

end Selections

theorem selections_keeps (depth : Nat) : Keeps (selections depth) := by
  induction depth with
  | zero => exact peek_ensures.seq fun _ => .throw _
  | succ depth ih =>
      have hSelection : Keeps (do
          if ← skip .spread then spread depth (selections depth)
          else fieldSelection depth (selections depth)) :=
        (skip_keeps _).seq fun _ => .ite (fun _ => spread_keeps depth ih)
          fun _ => fieldSelection_keeps depth ih
      exact (any_ensures _ _ hSelection).keeps

theorem variableDefinition_keeps : Keeps variableDefinition :=
  description_keeps.seq fun _ => (expect_keeps .dollar).seq fun _ => name_ensures.seq fun _ =>
    (expect_keeps .colon).seq fun _ => (typeRef_ensures maxDepth).seq fun _ =>
      defaultValue_keeps.seq fun _ => constantDirectives_ensures.seq fun _ => .pure trivial

theorem operation_keeps (description : Option String) (kind : OperationKind) :
    Keeps (operation description kind) := by
  refine peek_ensures.seq fun token => ?_
  extract_lets operationFrom
  have hOperation (name : Option String) : Keeps (operationFrom name) :=
    (optionalMany_ensures _ _ variableDefinition_keeps).seq fun _ =>
      (directives_ensures false maxDepth).seq fun _ => (selections_keeps maxDepth).seq fun _ =>
        .pure trivial
  split
  · exact (name_ensures.map (R := fun _ => True) fun _ _ => trivial).seq hOperation
  · exact (Ensures.pure_keeps _).seq hOperation

theorem fragment_keeps (description : Option String) : Keeps (fragment description) :=
  fragmentName_keeps.seq fun _ => (keyword_keeps _).seq fun _ => name_ensures.seq fun _ =>
    (directives_ensures false maxDepth).seq fun _ => (selections_keeps maxDepth).seq fun _ =>
      .pure trivial

/-! Documents. -/

theorem definitionOf_ensures (description : Option String) (word : String) :
    Ensures (definitionOf description word) (Definition.WellFormed true) := by
  unfold definitionOf
  split
  · rename_i parser hParser
    exact advance_keeps.seq fun _ => (declaration?_ensures hParser description).bind
      fun _ hDeclared => .pure hDeclared
  · refine .ite (fun _ => ?_) fun _ => .ite (fun _ => ?_) fun _ => ?_
    · exact advance_keeps.seq fun _ => directiveDefinition_keeps.seq fun _ => .pure trivial
    · exact advance_keeps.seq fun _ => (fragment_keeps description).seq fun _ => .pure trivial
    · split
      · exact advance_keeps.seq fun _ => (operation_keeps description _).seq fun _ => .pure trivial
      · refine .ite (fun _ => .throw _) fun _ => .ite (fun _ => ?_) fun _ => unexpected_ensures
        exact advance_keeps.seq fun _ => extension_keeps.seq fun _ => .pure trivial

theorem definition_ensures : Ensures definition (Definition.WellFormed true) := by
  refine (isNext_keeps _).seq fun _ => .ite (fun _ => ?_) fun _ => ?_
  · exact (selections_keeps maxDepth).seq fun _ => .pure trivial
  · refine description_keeps.seq fun description => peek_ensures.seq fun token => ?_
    split
    · exact definitionOf_ensures _ _
    · exact .throw _
    · exact unexpected_ensures

theorem definitionsToEnd_ensures (fuel : Nat) :
    Ensures (definitionsToEnd fuel) fun definitions =>
      ∀ d ∈ definitions, Definition.WellFormed true d := by
  induction fuel with
  | zero => exact unexpected_ensures
  | succ fuel ih =>
      refine peek_ensures.seq fun token => ?_
      split
      · exact .pure (by simp)
      · refine definition_ensures.bind fun first hFirst => ih.bind fun rest hRest => .pure ?_
        exact List.forall_mem_cons.mpr ⟨hFirst, hRest⟩

theorem document_ensures : Ensures document (Document.WellFormed true) := by
  refine definition_ensures.bind fun first hFirst => fuel_keeps.seq fun fuel =>
    (definitionsToEnd_ensures fuel).bind fun rest hRest => .pure ?_
  exact List.forall_mem_cons.mpr ⟨hFirst, hRest⟩

end Parser

/-- Every document that a text writes is well-formed, without any variables in
the places that building looks at. -/
theorem Document.parse_wellFormed {source : String} {document : Document}
    (h : Document.parse source = .ok document) : document.WellFormed true := by
  rw [Document.parse, StateT.run'_eq] at h
  cases hRun : Parser.document.run (Tokens.ofText source) with
  | error e =>
      rw [hRun] at h
      cases h
  | ok result =>
      rw [hRun] at h
      cases h
      exact (Parser.document_ensures _ _ _ (Tokens.ofChars_wellFormed _) hRun).2

end SchemaModels.Graphql
