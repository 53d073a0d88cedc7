import SchemaModels.Build.Document
import SchemaModels.Proofs.FirstFailure
import SchemaModels.Proofs.Graphql.Shape

/-!
Everything that is wrong with a document, in the order in which building looks
at it: the source of a model before its fields, the type of a field before its
directives, a name before its arguments. Building stops at the first of these
faults, and succeeds only where there is none.
-/
namespace SchemaModels.Build

open Graphql

/-- A number that cannot be held. -/
def numeralFaults {α : Type} : Except NumeralError α → List BuildError
  | .ok _ => []
  | .error e => [.numeral e]

mutual
/-- The faults of a literal, from left to right and from the outside in. What a
later entry replaces counts as well. -/
def literalFaults : Literal → List BuildError
  | .variable _ => [.unsupportedValue .variable]
  | .other kind => [.unsupportedValue kind]
  | .integer lexeme => numeralFaults (Numeral.readInteger 10 lexeme)
  | .float lexeme => numeralFaults (Numeral.readFloat lexeme)
  | .list items => itemFaults items
  | .object fields => entryFaults fields
  | .text _ | .boolean _ | .null | .enum _ => []

def itemFaults : List Literal → List BuildError
  | [] => []
  | item :: rest => literalFaults item ++ itemFaults rest

def entryFaults : List (String × Literal) → List BuildError
  | [] => []
  | (_, literal) :: rest => literalFaults literal ++ entryFaults rest
end

/-- A name that the convention does not admit. -/
def nameFaults (naming : Naming) (name : String) : List BuildError :=
  if naming.read? name = none then [.directiveName name] else []

def directiveFaults (naming : Naming) (applied : AppliedDirective) : List BuildError :=
  nameFaults naming applied.name ++ entryFaults applied.arguments

/-- What is left of a type when a mark for non-null, then a list, and then a mark
inside the list are taken away, as far as they are there. -/
def bareType : TypeRef → TypeRef
  | .nonNull (.list (.nonNull type)) => type
  | .nonNull (.list type) => type
  | .nonNull type => type
  | .list (.nonNull type) => type
  | .list type => type
  | type => type

/-- A type whose bare type is no name. -/
def typeFaults (type : TypeRef) : List BuildError :=
  match bareType type with
  | .named _ => []
  | rest => [.typeShape rest.kind]

/-- The source that a model states: of the first directive for it the first text
that is given by the name of its argument. -/
def statedSource? (directives : List AppliedDirective) : Option String :=
  match directives.find? (·.name = sourceDirective) with
  | none => none
  | some applied => applied.arguments.findSome? fun
    | (key, .text value) => if key = sourceArgument then some value else none
    | _ => none

/-- A model that neither states a source nor has a default, or whose source is
empty. A stated empty source does not fall back to the default. -/
def sourceFaults (options : Options) (type : ObjectType) : List BuildError :=
  match (statedSource? type.directives).or options.defaultSource with
  | none | some "" => [.missingSource type.name]
  | some _ => []

/-- A field does not look at the directive for the source. -/
def fieldFaults (options : Options) : Member → List BuildError
  | .other kind => [.notField kind]
  | .field definition =>
    typeFaults definition.type ++
      (definition.directives.filter (·.name ≠ sourceDirective)).flatMap
        (directiveFaults options.naming)

/-- A model takes the name of the directive for the source as it is. -/
def modelDirectiveFaults (naming : Naming) (applied : AppliedDirective) : List BuildError :=
  if applied.name = sourceDirective then entryFaults applied.arguments
  else directiveFaults naming applied

def modelFaults (options : Options) (type : ObjectType) : List BuildError :=
  sourceFaults options type ++ type.fields.flatMap (fieldFaults options) ++
    type.directives.flatMap (modelDirectiveFaults options.naming)

def definitionFaults (options : Options) : Definition → List BuildError
  | .declaration _ (.object type) => modelFaults options type
  | other => [.unsupportedDefinition other.kind]

def documentFaults (options : Options) (document : Document) : List BuildError :=
  document.definitions.flatMap (definitionFaults options)

theorem numeral_failsFirst {α : Type} (outcome : Except NumeralError α) :
    FailsFirst (numeral outcome) (numeralFaults outcome) := by
  cases outcome with
  | ok a => exact .ok a
  | error e => exact .error (BuildError.numeral e)

mutual
theorem value_failsFirst (literal : Literal) :
    FailsFirst (value literal) (literalFaults literal) := by
  cases literal with
  | «variable» name => exact .error _
  | other kind => exact .error _
  | integer lexeme => exact (numeral_failsFirst _).map _
  | float lexeme => exact (numeral_failsFirst _).map _
  | text value => exact .ok _
  | boolean b => exact .ok _
  | null => exact .ok _
  | enum name => exact .ok _
  | list items => exact (values_failsFirst items).map _
  | object fields => exact (pairs_failsFirst fields).map _

theorem values_failsFirst (items : List Literal) :
    FailsFirst (values items) (itemFaults items) := by
  cases items with
  | nil => exact .ok []
  | cons item rest =>
      exact (value_failsFirst item).bind fun first _ =>
        (values_failsFirst rest).bind_pure (first :: ·)

theorem pairs_failsFirst (entries : List (String × Literal)) :
    FailsFirst (pairs entries) (entryFaults entries) := by
  cases entries with
  | nil => exact .ok []
  | cons entry rest =>
      exact (value_failsFirst entry.2).bind fun first _ =>
        (pairs_failsFirst rest).bind_pure ((entry.1, first) :: ·)
end

theorem arguments_failsFirst (given : List (String × Literal)) :
    FailsFirst (arguments given) (entryFaults given) :=
  (pairs_failsFirst given).map _

theorem directive_failsFirst (naming : Naming) (applied : AppliedDirective) :
    FailsFirst (directive naming applied) (directiveFaults naming applied) := by
  unfold directive directiveFaults nameFaults
  cases naming.read? applied.name with
  | none =>
      intro e
      simp [throw, throwThe, MonadExceptOf.throw]
  | some name =>
      rw [if_neg (by simp), List.nil_append]
      exact FailsFirst.bind_pure (arguments_failsFirst applied.arguments) _

theorem bareType_eq (type : TypeRef) : bareType type = (stripList (stripNonNull type)).2 := by
  fun_cases bareType type <;> simp_all [stripList, stripNonNull]

theorem fieldShape_failsFirst (defaultSource : Option String) (type : TypeRef) :
    FailsFirst (fieldShape defaultSource type) (typeFaults type) := by
  unfold fieldShape typeFaults
  rw [bareType_eq]
  cases stripList (stripNonNull type) with
  | mk collection rest =>
      cases rest with
      | named name => exact .ok _
      | list item => exact .error _
      | nonNull inner => exact .error _
      | other kind => exact .error _

theorem isSource_iff (applied : AppliedDirective) :
    isSource applied = true ↔ applied.name = sourceDirective := by
  simp [isSource]

/-- The directives that a field looks at. -/
theorem filter_not_isSource (directives : List AppliedDirective) :
    directives.filter (!isSource ·) = directives.filter (·.name ≠ sourceDirective) := by
  apply List.filter_congr
  intro applied _
  simp [← isSource_iff]

theorem field_failsFirst (options : Options) (member : Member) :
    FailsFirst (field options member) (fieldFaults options member) := by
  cases member with
  | other kind => exact .error _
  | field definition =>
      refine (fieldShape_failsFirst _ _).bind fun shape _ => ?_
      rw [filter_not_isSource]
      exact (FailsFirst.mapM fun applied _ => directive_failsFirst _ applied).bind_pure _

theorem sourceName?_eq (given : List (String × Literal)) :
    sourceName? given = given.findSome? fun
      | (key, .text value) => if key = sourceArgument then some value else none
      | _ => none := by
  induction given with
  | nil => rfl
  | cons entry rest ih =>
      rw [List.findSome?_cons, ← ih]
      obtain ⟨key, literal⟩ := entry
      cases literal with
      | text value =>
          by_cases hKey : key = sourceArgument <;> simp [sourceName?, hKey]
      | _ => rfl

theorem declaredSource?_eq (directives : List AppliedDirective) :
    declaredSource? directives = statedSource? directives := by
  have hFind : directives.find? isSource = directives.find? (·.name = sourceDirective) := by
    congr 1
  unfold declaredSource? statedSource?
  rw [hFind]
  cases hFound : directives.find? (·.name = sourceDirective) with
  | none => simp
  | some applied => simp [sourceName?_eq]

/-- A source that is given fails exactly if it is empty. -/
theorem givenSource_failsFirst (type : ObjectType) (given : String) :
    FailsFirst (if given.isEmpty then .error (.missingSource type.name) else .ok given)
      (match some given with
        | none | some "" => [BuildError.missingSource type.name]
        | some _ => []) := by
  by_cases hGiven : given = ""
  · subst hGiven
    exact .error _
  · simp only [String.isEmpty_iff, hGiven, if_false]
    exact .ok given

theorem source_failsFirst (options : Options) (type : ObjectType) :
    FailsFirst (source options type) (sourceFaults options type) := by
  unfold source sourceFaults
  rw [declaredSource?_eq]
  cases statedSource? type.directives with
  | some name => exact givenSource_failsFirst type name
  | none =>
      cases options.defaultSource with
      | none => exact .error _
      | some name => exact givenSource_failsFirst type name

theorem modelDirective_failsFirst (naming : Naming) (applied : AppliedDirective) :
    FailsFirst (modelDirective naming applied) (modelDirectiveFaults naming applied) := by
  unfold modelDirective modelDirectiveFaults
  by_cases hSource : applied.name = sourceDirective
  · rw [if_pos hSource, if_pos ((isSource_iff applied).mpr hSource)]
    exact directive_failsFirst .plain applied
  · rw [if_neg hSource, if_neg fun h => hSource ((isSource_iff applied).mp h)]
    exact directive_failsFirst naming applied

/-- The order of faults in one model. -/
theorem model_failsFirst (options : Options) (type : ObjectType) :
    FailsFirst (model options type) (modelFaults options type) := by
  unfold model modelFaults
  rw [List.append_assoc]
  refine (source_failsFirst options type).bind fun name _ => ?_
  refine (FailsFirst.mapM fun member _ => field_failsFirst options member).bind fun fields _ => ?_
  exact (FailsFirst.mapM fun applied _ => modelDirective_failsFirst _ applied).bind_pure _

theorem definition_failsFirst (options : Options) (d : Definition) :
    FailsFirst (definition options d) (definitionFaults options d) := by
  cases d with
  | declaration description declaration =>
      cases declaration with
      | object type => exact model_failsFirst options type
      | _ => exact .error _
  | _ => exact .error _

/-- The order of faults in a document. -/
theorem document_failsFirst (options : Options) (given : Document) :
    FailsFirst (document options given) (documentFaults options given) :=
  FailsFirst.mapM fun d _ => definition_failsFirst options d

end SchemaModels.Build
