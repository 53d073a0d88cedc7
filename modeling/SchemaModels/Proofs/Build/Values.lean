import SchemaModels.Proofs.Build.Parts
import SchemaModels.Proofs.Entries
import SchemaModels.Proofs.Graphql.Shape
import SchemaModels.Proofs.Model.Values

/-!
What holds of all values in a model that was built. Leaves come from the literals
that parsing knows, and the keys of an object are kept once.
-/
namespace SchemaModels

namespace Binary64

theorem ofParts_ne_notANumber (negative : Bool) (mantissa : Nat) (exponent : Int) :
    ofParts negative mantissa exponent ≠ .notANumber := by
  unfold ofParts
  split <;> simp

theorem ofRatio_ne_notANumber (negative : Bool) (num den : Nat) :
    ofRatio negative num den ≠ .notANumber := by
  unfold ofRatio
  split
  · simp [zero]
  · dsimp only
    split
    · exact ofParts_ne_notANumber _ _ _
    · exact ofParts_ne_notANumber _ _ _

/-- A decimal is a number, or infinite when it is too large. -/
theorem ofDecimal_ne_notANumber (negative : Bool) (digits : Nat) (scale : Int) :
    ofDecimal negative digits scale ≠ .notANumber := by
  unfold ofDecimal
  split
  · simp [zero]
  split
  · simp
  split
  · simp [zero]
  cases scale with
  | ofNat k => exact ofRatio_ne_notANumber _ _ _
  | negSucc k => exact ofRatio_ne_notANumber _ _ _

end Binary64

namespace Build

open Graphql

variable {P : Value → Prop}

/-- A property that values get where they are built: what a literal without parts
gives has it, and so have lists and objects with distinct keys, whatever is in
them. -/
structure IsGiven (P : Value → Prop) : Prop where
  null : P .null
  boolean : ∀ b, P (.boolean b)
  text : ∀ s, P (.text s)
  integer : ∀ {lexeme : String} {n : Int}, IsIntegerLexeme lexeme →
    Numeral.readInteger 10 lexeme = .ok n → P (.integer n)
  float : ∀ l : Lexeme, P (.float (.ofDecimal l.minus l.digits l.scale))
  list : ∀ items, P (.list items)
  object : ∀ fields : List (String × Value), (fields.map Prod.fst).Nodup → P (.object fields)

theorem numeral_eq_ok_iff {α : Type} {outcome : Except NumeralError α} {a : α} :
    numeral outcome = .ok a ↔ outcome = .ok a := by
  cases outcome with
  | ok b => simp [numeral]
  | error e => simp [numeral]

theorem everyField_ofPairs {pairs : List (String × Value)}
    (h : Value.EveryField P pairs) : Value.EveryField P (Entries.ofPairs pairs) := by
  rw [Value.everyField_iff] at h ⊢
  intro field hField
  exact h field (Entries.ofPairs_subset pairs hField)

mutual
theorem value_every (h : IsGiven P) {literal : Literal} (hShape : literal.WellFormed true)
    {v : Value} (hValue : value literal = .ok v) : v.Every P := by
  cases literal with
  | list items =>
      obtain ⟨built, hItems, rfl⟩ := map_eq_ok_iff.mp hValue
      exact ⟨h.list built, values_every h hShape hItems⟩
  | object fields =>
      obtain ⟨built, hFields, rfl⟩ := map_eq_ok_iff.mp hValue
      exact ⟨h.object _ (Entries.ofPairs_nodup built),
        everyField_ofPairs (pairs_every h hShape hFields)⟩
  | integer lexeme =>
      obtain ⟨n, hNumeral, rfl⟩ := map_eq_ok_iff.mp hValue
      exact h.integer hShape (numeral_eq_ok_iff.mp hNumeral)
  | float lexeme =>
      obtain ⟨l, rfl⟩ := hShape
      rw [value, l.readFloat_text] at hValue
      obtain rfl := Except.ok.inj hValue
      exact h.float l
  | text s =>
      obtain rfl := Except.ok.inj hValue
      exact h.text s
  | «enum» s =>
      obtain rfl := Except.ok.inj hValue
      exact h.text s
  | boolean b =>
      obtain rfl := Except.ok.inj hValue
      exact h.boolean b
  | null =>
      obtain rfl := Except.ok.inj hValue
      exact h.null
  | «variable» name => cases hValue
  | other kind => cases hValue

theorem values_every (h : IsGiven P) {items : List Literal}
    (hShape : Literal.ItemLeaves (Literal.LeafWellFormed true) items) {built : List Value}
    (hItems : values items = .ok built) : Value.EveryItem P built := by
  cases items with
  | nil =>
      obtain rfl := Except.ok.inj hItems
      trivial
  | cons item rest =>
      obtain ⟨first, hFirst, hRest⟩ := bind_eq_ok_iff.mp hItems
      obtain ⟨others, hOthers, hBuilt⟩ := bind_eq_ok_iff.mp hRest
      obtain rfl := Except.ok.inj hBuilt
      exact ⟨value_every h hShape.1 hFirst, values_every h hShape.2 hOthers⟩

theorem pairs_every (h : IsGiven P) {entries : List (String × Literal)}
    (hShape : Literal.FieldLeaves (Literal.LeafWellFormed true) entries)
    {built : List (String × Value)} (hEntries : pairs entries = .ok built) :
    Value.EveryField P built := by
  cases entries with
  | nil =>
      obtain rfl := Except.ok.inj hEntries
      trivial
  | cons entry rest =>
      obtain ⟨first, hFirst, hRest⟩ := bind_eq_ok_iff.mp hEntries
      obtain ⟨others, hOthers, hBuilt⟩ := bind_eq_ok_iff.mp hRest
      obtain rfl := Except.ok.inj hBuilt
      exact ⟨value_every h hShape.1 hFirst, pairs_every h hShape.2 hOthers⟩
end

theorem directive_every (h : IsGiven P) {naming : Naming} {applied : AppliedDirective}
    (hShape : applied.WellFormed true) {d : Directive}
    (hDirective : directive naming applied = .ok d) : d.Every P := by
  obtain ⟨name, args, -, hArgs, rfl⟩ := directive_eq_ok_iff.mp hDirective
  obtain ⟨built, hPairs, rfl⟩ := map_eq_ok_iff.mp hArgs
  have hEntries : Literal.FieldLeaves (Literal.LeafWellFormed true) applied.arguments :=
    Literal.fieldLeaves_iff.mpr fun entry hEntry => (hShape.2 entry hEntry).2
  exact ⟨h.object _ (Entries.ofPairs_nodup built),
    everyField_ofPairs (pairs_every h hEntries hPairs)⟩

theorem field_every (h : IsGiven P) {options : Options} {member : Member}
    (hShape : member.WellFormed true) {f : Field} (hField : field options member = .ok f) :
    f.Every P := by
  cases member with
  | other kind => cases hField
  | field definition =>
      obtain ⟨shape, -, hRest⟩ := bind_eq_ok_iff.mp hField
      obtain ⟨directives, hDirectives, hBuilt⟩ := bind_eq_ok_iff.mp hRest
      obtain rfl := Except.ok.inj hBuilt
      exact forall_of_mapM hDirectives fun applied hApplied d hDirective =>
        directive_every h (hShape.2.2 applied (List.mem_of_mem_filter hApplied)) hDirective

theorem model_every (h : IsGiven P) {options : Options} {type : ObjectType}
    (hShape : type.WellFormed true) {m : Model} (hModel : model options type = .ok m) :
    m.Every P := by
  obtain ⟨-, -, hFields, hDirectives⟩ := model_eq_ok_iff.mp hModel
  exact ⟨forall_of_mapM (mapM_eq_ok_iff.mpr hFields) fun member hMember f hField =>
      field_every h (hShape.fields member hMember) hField,
    forall_of_mapM (mapM_eq_ok_iff.mpr hDirectives) fun applied hApplied d hDirective =>
      directive_every h (hShape.directives applied hApplied) hDirective⟩

theorem definition_every (h : IsGiven P) {options : Options} {given : Definition}
    (hShape : given.WellFormed true) {m : Model} (hModel : definition options given = .ok m) :
    m.Every P := by
  cases given with
  | declaration description declared =>
      cases declared with
      | object type => exact model_every h hShape hModel
      | _ => cases hModel
  | _ => cases hModel

/-- The values in the models of a document have every property that is given to
them where they are built. -/
theorem document_every (h : IsGiven P) {options : Options} {given : Document}
    (hShape : given.WellFormed true) {models : List Model}
    (hModels : document options given = .ok models) : ∀ m ∈ models, m.Every P :=
  forall_of_mapM hModels fun d hd _ hModel => definition_every h (hShape d hd) hModel

/-- All doubles of a document are numbers. -/
theorem isGiven_isNumber : IsGiven Value.IsNumber where
  null := trivial
  boolean _ := trivial
  text _ := trivial
  integer _ _ := trivial
  float l := by
    rw [Value.IsNumber]
    · trivial
    · intro hValue
      exact Binary64.ofDecimal_ne_notANumber _ _ _ (Value.float.inj hValue)
  list _ := trivial
  object _ _ := trivial

end Build
end SchemaModels
