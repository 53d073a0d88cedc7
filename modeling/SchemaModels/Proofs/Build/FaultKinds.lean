import SchemaModels.Proofs.Build.Faults

/-!
The faults that are possible in documents which parsing shapes. Only a literal
that is no constant, or an integer with too many digits, makes a value fail, and
of the wrong types only lists in lists are left.
-/
namespace SchemaModels

open Graphql

/-- A leaf that is an integer has no more digits than can be held. -/
def Graphql.Literal.LeafFits : Literal → Prop
  | .integer lexeme => lexeme.toList.countP Numeral.isDecimalDigit ≤ maxIntegerDigits
  | _ => True

/-- The integers in a literal have no more digits than can be held. -/
def Graphql.Literal.IntegersFit (literal : Literal) : Prop := literal.Leaves LeafFits

/-- The directives of a member that is a field. -/
def Graphql.Member.directives : Member → List AppliedDirective
  | .field definition => definition.directives
  | .other _ => []

/-- All literals that stand in an object type and are looked at, whether or not
their directives are. -/
def Graphql.ObjectType.literals (type : ObjectType) : List Literal :=
  (type.fields.flatMap Member.directives ++ type.directives).flatMap fun applied =>
    applied.arguments.map Prod.snd

def Graphql.Definition.literals : Definition → List Literal
  | .declaration _ (.object type) => type.literals
  | _ => []

def Graphql.Document.literals (document : Document) : List Literal :=
  document.definitions.flatMap Definition.literals

/-- The integers in a document have no more digits than can be held. -/
def Graphql.Document.IntegersFit (document : Document) : Prop :=
  ∀ literal ∈ document.literals, literal.IntegersFit

namespace Build

mutual
/-- A property of the faults of all leaves holds for those of the literal. -/
theorem forall_literalFaults {P : BuildError → Prop} {literal : Literal}
    (h : literal.Leaves fun leaf => ∀ e ∈ literalFaults leaf, P e) :
    ∀ e ∈ literalFaults literal, P e := by
  cases literal with
  | list items =>
      rw [literalFaults]
      exact forall_itemFaults (by simpa [Literal.Leaves] using h)
  | object fields =>
      rw [literalFaults]
      exact forall_entryFaults (by simpa [Literal.Leaves] using h)
  | _ => exact h

theorem forall_itemFaults {P : BuildError → Prop} {items : List Literal}
    (h : Literal.ItemLeaves (fun leaf => ∀ e ∈ literalFaults leaf, P e) items) :
    ∀ e ∈ itemFaults items, P e := by
  cases items with
  | nil => simp [itemFaults]
  | cons item rest =>
      rw [itemFaults, List.forall_mem_append]
      exact ⟨forall_literalFaults h.1, forall_itemFaults h.2⟩

theorem forall_entryFaults {P : BuildError → Prop} {entries : List (String × Literal)}
    (h : Literal.FieldLeaves (fun leaf => ∀ e ∈ literalFaults leaf, P e) entries) :
    ∀ e ∈ entryFaults entries, P e := by
  cases entries with
  | nil => simp [entryFaults]
  | cons entry rest =>
      rw [entryFaults, List.forall_mem_append]
      exact ⟨forall_literalFaults h.1, forall_entryFaults h.2⟩
end

/-- A number that has too many digits. -/
def IsTooLong (e : BuildError) : Prop :=
  ∃ count, maxIntegerDigits < count ∧ e = .numeral (.tooManyDigits count)

/-- A whole number is read, or has too many digits. -/
theorem numeralFaults_integer {lexeme : String} (h : IsIntegerLexeme lexeme) :
    numeralFaults (Numeral.readInteger 10 lexeme) =
      if maxIntegerDigits < lexeme.toList.countP Numeral.isDecimalDigit then
        [.numeral (.tooManyDigits (lexeme.toList.countP Numeral.isDecimalDigit))]
      else [] := by
  obtain ⟨l, hInteger, rfl⟩ := h
  rw [l.readInteger_text hInteger, l.countP_text hInteger]
  split <;> rfl

/-- Every number with a fraction or an exponent can be held. -/
theorem numeralFaults_float {lexeme : String} (h : IsNumberLexeme lexeme) :
    numeralFaults (Numeral.readFloat lexeme) = [] := by
  obtain ⟨l, rfl⟩ := h
  rw [l.readFloat_text]
  rfl

/-- The faults that one leaf can have. Variables occur only where they may stand. -/
theorem leafFaults {constant : Bool} {literal : Literal} (h : literal.LeafWellFormed constant) :
    ∀ e ∈ literalFaults literal,
      constant = false ∧ e = .unsupportedValue .variable ∨ ¬literal.LeafFits ∧ IsTooLong e := by
  cases literal with
  | «variable» name => simp [literalFaults, h.1]
  | integer lexeme =>
      rw [literalFaults, numeralFaults_integer h]
      split
      · rename_i hLong
        intro e he
        rw [List.mem_singleton] at he
        exact Or.inr ⟨Nat.not_le.mpr hLong, _, hLong, he⟩
      · simp
  | float lexeme => simp [literalFaults, numeralFaults_float h]
  | list items => exact h.elim
  | object fields => exact h.elim
  | other kind => exact h.elim
  | _ => simp [literalFaults]

/-- What can be wrong with a document that parsing shapes, besides numbers. -/
inductive IsSchemaFault : BuildError → Prop where
  | unsupportedDefinition (kind : Kind) : IsSchemaFault (.unsupportedDefinition kind)
  | missingSource (name : String) : IsSchemaFault (.missingSource name)
  | typeShape : IsSchemaFault (.typeShape .listType)
  | directiveName (name : String) : IsSchemaFault (.directiveName name)
  | unsupportedValue : IsSchemaFault (.unsupportedValue .variable)

/-- What a document that parsing shapes is refused for, besides its values. Only
the convention with providers refuses names. -/
inductive IsRefusal (options : Options) : BuildError → Prop where
  | unsupportedDefinition {kind : Kind} (hKind : kind ≠ .objectTypeDefinition) :
      IsRefusal options (.unsupportedDefinition kind)
  | missingSource (name : String) : IsRefusal options (.missingSource name)
  | typeShape : IsRefusal options (.typeShape .listType)
  | directiveName {name : String} (hName : IsName name)
      (hRefused : options.naming.read? name = none) : IsRefusal options (.directiveName name)

theorem IsRefusal.isSchemaFault {options : Options} {e : BuildError} (h : IsRefusal options e) :
    IsSchemaFault e := by
  cases h with
  | unsupportedDefinition hKind => exact .unsupportedDefinition _
  | missingSource name => exact .missingSource name
  | typeShape => exact .typeShape
  | directiveName hName hRefused => exact .directiveName _

/-- Only an object type has the kind of one. -/
theorem kind_ne_objectTypeDefinition {constant : Bool} {d : Definition}
    (hShape : d.WellFormed constant)
    (hOther : ∀ description type, d ≠ .declaration description (.object type)) :
    d.kind ≠ .objectTypeDefinition := by
  cases d with
  | declaration description declared =>
      cases declared with
      | object type => exact (hOther description type rfl).elim
      | _ => simp [Definition.kind, Declaration.kind]
  | extension extended => cases extended <;> simp [Definition.kind, Declaration.extensionKind]
  | other kind => exact hShape.elim
  | _ => simp [Definition.kind]

/-- No mark for non-null follows another, so under one there is a name or a list. -/
theorem exists_of_ne_nonNull {type : TypeRef} (h : type.WellFormed)
    (hMark : ∀ inner, type ≠ .nonNull inner) :
    (∃ name, type = .named name) ∨ ∃ item, type = .list item := by
  cases type with
  | named name => exact Or.inl ⟨name, rfl⟩
  | list item => exact Or.inr ⟨item, rfl⟩
  | nonNull inner => exact (hMark inner rfl).elim
  | other kind => exact h.elim

theorem stripNonNull_wellFormed {type : TypeRef} (h : type.WellFormed) :
    (stripNonNull type).WellFormed ∧ ∀ inner, stripNonNull type ≠ .nonNull inner := by
  cases type with
  | nonNull inner => exact h
  | _ => exact ⟨h, by simp [stripNonNull]⟩

/-- Under its wrappers a type is a name or still a list. -/
theorem forall_typeFaults {type : TypeRef} (h : type.WellFormed) :
    ∀ e ∈ typeFaults type, e = .typeShape .listType := by
  have hBare : (bareType type).WellFormed ∧ ∀ inner, bareType type ≠ .nonNull inner := by
    obtain ⟨hOuter, hMark⟩ := stripNonNull_wellFormed h
    rw [bareType_eq]
    rcases exists_of_ne_nonNull hOuter hMark with ⟨name, hName⟩ | ⟨item, hItem⟩
    · rw [hName] at hOuter ⊢
      exact ⟨hOuter, by simp [stripList]⟩
    · rw [hItem] at hOuter ⊢
      exact stripNonNull_wellFormed hOuter
  unfold typeFaults
  rcases exists_of_ne_nonNull hBare.1 hBare.2 with ⟨name, hName⟩ | ⟨item, hItem⟩
  · simp [hName]
  · simp [hItem, TypeRef.kind]

theorem entryFaults_eq (entries : List (String × Literal)) :
    entryFaults entries = (entries.map Prod.snd).flatMap literalFaults := by
  induction entries with
  | nil => rfl
  | cons entry rest ih => rw [entryFaults, ih, List.map_cons, List.flatMap_cons]

section

variable {options : Options} {P : BuildError → Prop} (hRefusal : ∀ e, IsRefusal options e → P e)
include hRefusal

theorem forall_directiveFaults {applied : AppliedDirective} (hName : IsName applied.name)
    (h : ∀ literal ∈ applied.arguments.map Prod.snd, ∀ e ∈ literalFaults literal, P e) :
    ∀ e ∈ directiveFaults options.naming applied, P e := by
  rw [directiveFaults, List.forall_mem_append, entryFaults_eq, List.forall_mem_flatMap]
  refine ⟨?_, h⟩
  unfold nameFaults
  split
  · rename_i hRefused
    simpa using hRefusal _ (.directiveName hName hRefused)
  · simp

theorem forall_fieldFaults {constant : Bool} {member : Member}
    (hShape : member.WellFormed constant)
    (h : ∀ applied ∈ member.directives, ∀ literal ∈ applied.arguments.map Prod.snd,
      ∀ e ∈ literalFaults literal, P e) :
    ∀ e ∈ fieldFaults options member, P e := by
  cases member with
  | other kind => exact hShape.elim
  | field definition =>
      rw [fieldFaults, List.forall_mem_append, List.forall_mem_flatMap]
      constructor
      · intro e he
        rw [forall_typeFaults hShape.2.1 e he]
        exact hRefusal _ .typeShape
      · intro applied hApplied
        have hMem := List.mem_of_mem_filter hApplied
        exact forall_directiveFaults hRefusal (hShape.2.2 applied hMem).1 (h applied hMem)

theorem forall_modelFaults {constant : Bool} {type : ObjectType}
    (hShape : type.WellFormed constant)
    (h : ∀ literal ∈ type.literals, ∀ e ∈ literalFaults literal, P e) :
    ∀ e ∈ modelFaults options type, P e := by
  rw [ObjectType.literals, List.forall_mem_flatMap, List.forall_mem_append,
    List.forall_mem_flatMap] at h
  obtain ⟨hFields, hDirectives⟩ := h
  rw [modelFaults, List.forall_mem_append, List.forall_mem_append, List.forall_mem_flatMap,
    List.forall_mem_flatMap]
  refine ⟨⟨?_, ?_⟩, ?_⟩
  · unfold sourceFaults
    split
    · simpa using hRefusal _ (.missingSource type.name)
    · simpa using hRefusal _ (.missingSource type.name)
    · simp
  · intro member hMember
    exact forall_fieldFaults hRefusal (hShape.fields member hMember) (hFields member hMember)
  · intro applied hApplied
    have hOwn := forall_directiveFaults hRefusal (hShape.directives applied hApplied).1
      (hDirectives applied hApplied)
    unfold modelDirectiveFaults
    split
    · rw [directiveFaults, List.forall_mem_append] at hOwn
      exact hOwn.2
    · exact hOwn

/-- A property of all refusals, and of what can be wrong with literals, holds of
everything that is wrong with a document. -/
theorem forall_documentFaults {constant : Bool} {document : Document}
    (hShape : document.WellFormed constant)
    (h : ∀ literal ∈ document.literals, ∀ e ∈ literalFaults literal, P e) :
    ∀ e ∈ documentFaults options document, P e := by
  rw [Document.literals, List.forall_mem_flatMap] at h
  rw [documentFaults, List.forall_mem_flatMap]
  intro d hd
  have hOther (hKind : d.kind ≠ .objectTypeDefinition) :
      ∀ e ∈ [BuildError.unsupportedDefinition d.kind], P e := by
    simpa using hRefusal _ (.unsupportedDefinition hKind)
  have hKind := kind_ne_objectTypeDefinition (hShape d hd)
  cases d with
  | declaration description declared =>
      cases declared with
      | object type => exact forall_modelFaults hRefusal (hShape _ hd) (h _ hd)
      | _ => exact hOther (hKind (by simp))
  | _ => exact hOther (hKind (by simp))

end

theorem literal_wellFormed {constant : Bool} {document : Document}
    (hShape : document.WellFormed constant) :
    ∀ literal ∈ document.literals, literal.WellFormed constant := by
  have hApplied {applied : AppliedDirective} (h : applied.WellFormed constant) :
      ∀ literal ∈ applied.arguments.map Prod.snd, literal.WellFormed constant :=
    List.forall_mem_map.mpr fun entry hEntry => (h.2 entry hEntry).2
  rw [Document.literals, List.forall_mem_flatMap]
  intro d hd
  have hDefinition := hShape d hd
  cases d with
  | declaration description declared =>
      cases declared with
      | object type =>
          rw [Definition.literals, ObjectType.literals, List.forall_mem_flatMap,
            List.forall_mem_append, List.forall_mem_flatMap]
          refine ⟨?_, fun applied h => hApplied (hDefinition.directives applied h)⟩
          intro member hMember applied h
          have hField := hDefinition.fields member hMember
          cases member with
          | field definition => exact hApplied (hField.2.2 applied h)
          | other kind => exact hField.elim
      | _ => simp [Definition.literals]
  | _ => simp [Definition.literals]

/-- All that can be wrong with a document that parsing shapes. -/
theorem faults_of_wellFormed {constant : Bool} (options : Options) {document : Document}
    (hShape : document.WellFormed constant) :
    ∀ e ∈ documentFaults options document, IsSchemaFault e ∨ IsTooLong e := by
  refine forall_documentFaults (fun e he => Or.inl he.isSchemaFault) hShape
    fun literal hLiteral => ?_
  apply forall_literalFaults
  refine (literal_wellFormed hShape literal hLiteral).imp₂ ?_
    (literal_wellFormed hShape literal hLiteral)
  intro leaf hLeaf _ e he
  rcases leafFaults hLeaf e he with ⟨-, rfl⟩ | ⟨-, hLong⟩
  · exact Or.inl .unsupportedValue
  · exact Or.inr hLong

/-- Where only constants stand, everything that can be wrong with a document is a
refusal or a number. -/
theorem faults_of_constant (options : Options) {document : Document}
    (hShape : document.WellFormed true) :
    ∀ e ∈ documentFaults options document, IsRefusal options e ∨ IsTooLong e := by
  refine forall_documentFaults (fun e => Or.inl) hShape fun literal hLiteral => ?_
  apply forall_literalFaults
  refine (literal_wellFormed hShape literal hLiteral).imp₂ ?_
    (literal_wellFormed hShape literal hLiteral)
  intro leaf hLeaf _ e he
  rcases leafFaults hLeaf e he with ⟨hVariable, -⟩ | ⟨-, hLong⟩
  · cases hVariable
  · exact Or.inr hLong

/-- Where all integers can be held, only the schema can be wrong. -/
theorem faults_of_fit {constant : Bool} (options : Options) {document : Document}
    (hShape : document.WellFormed constant) (hFit : document.IntegersFit) :
    ∀ e ∈ documentFaults options document, IsSchemaFault e := by
  refine forall_documentFaults (fun e he => he.isSchemaFault) hShape fun literal hLiteral => ?_
  apply forall_literalFaults
  refine (literal_wellFormed hShape literal hLiteral).imp₂ ?_ (hFit literal hLiteral)
  intro leaf hLeaf hLeafFits e he
  rcases leafFaults hLeaf e he with ⟨-, rfl⟩ | ⟨hLong, -⟩
  · exact .unsupportedValue
  · exact (hLong hLeafFits).elim

end Build
end SchemaModels
