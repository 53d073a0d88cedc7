import SchemaModels.Proofs.Build.FaultKinds
import SchemaModels.Proofs.Build.Parts
import SchemaModels.Proofs.Entries

/-!
The meaning of literals: a relation between them and the forms that values take. It
does not say how a literal is evaluated, and evaluation is shown to follow it. A literal
has a value exactly if no variable stands anywhere in it, and nothing that is no literal;
otherwise the first of these from the left is reported. Values with the names of their
kinds and plain data are two of the forms, and a literal means the plain data of its
value.
-/
namespace SchemaModels

open Graphql

namespace Lexeme

/-- The integer that the digits write. -/
def integer (l : Lexeme) : Int := if l.minus then -(l.digits : Int) else l.digits

/-- The double nearest to what is written. -/
def double (l : Lexeme) : Binary64 := .ofDecimal l.minus l.digits l.scale

/-- The parts of a number that matter can be read back from its text. -/
theorem parts_of_text_eq {first second : Lexeme} (h : first.text = second.text) :
    first.minus = second.minus ∧ first.digits = second.digits ∧ first.scale = second.scale := by
  have hChars : first.chars = second.chars := String.ofList_injective h
  have hSign := first.splitSign_chars
  rw [hChars, second.splitSign_chars] at hSign
  obtain ⟨hMinus, hUnsigned⟩ := Prod.mk.inj hSign
  have hDecimal := first.readDecimal_unsigned
  rw [← hUnsigned, second.readDecimal_unsigned] at hDecimal
  obtain ⟨hDigits, hScale⟩ := Prod.mk.inj (Option.some.inj hDecimal)
  exact ⟨hMinus.symm, hDigits.symm, hScale.symm⟩

end Lexeme

namespace Graphql.Literal

mutual
/-- A literal and all that stands in it, from left to right and from the outside in. -/
def nodes : Literal → List Literal
  | .list items => .list items :: itemNodes items
  | .object fields => .object fields :: fieldNodes fields
  | leaf => [leaf]

def itemNodes : List Literal → List Literal
  | [] => []
  | item :: rest => item.nodes ++ itemNodes rest

def fieldNodes : List (String × Literal) → List Literal
  | [] => []
  | (_, value) :: rest => value.nodes ++ fieldNodes rest
end

/-- Whether a node can be part of a constant. Variables and what is no literal cannot. -/
def isConstant : Literal → Bool
  | .variable _ | .other _ => false
  | _ => true

/-- The kind of the first node that cannot be part of a constant. -/
def StartsFailing (literal : Literal) (kind : Kind) : Prop :=
  ∃ before node after, literal.nodes = before ++ node :: after ∧
    (∀ earlier ∈ before, earlier.isConstant = true) ∧ node.isConstant = false ∧ node.kind = kind

/-- A number is written as the schema language writes it, and an integer has no more
digits than can be held. -/
def LeafWritten : Literal → Prop
  | .integer lexeme =>
    IsIntegerLexeme lexeme ∧ lexeme.toList.countP Numeral.isDecimalDigit ≤ maxIntegerDigits
  | .float lexeme => IsNumberLexeme lexeme
  | _ => True

/-- All numbers in a literal are written so. Its other nodes may be of any kind. -/
def IsWritten (literal : Literal) : Prop := literal.Leaves LeafWritten

end Graphql.Literal

/-- The forms that plain values take in a type. -/
structure Forms (α : Type) where
  null : α
  boolean : Bool → α
  text : String → α
  integer : Int → α
  float : Binary64 → α
  list : List α → α
  object : List (String × α) → α

def Value.forms : Forms Value :=
  ⟨.null, .boolean, .text, .integer, .float, .list, .object⟩

def Json.forms : Forms Json :=
  ⟨.null, .boolean, .text, .integer, .float, .list, .object⟩

namespace Build

variable {α : Type} {f : Forms α}

mutual
/-- What a literal stands for. Of the fields of an object that have one name the first
gives the place and the last the value. -/
inductive Denotes (f : Forms α) : Literal → α → Prop where
  | null : Denotes f .null f.null
  | boolean (b : Bool) : Denotes f (.boolean b) (f.boolean b)
  | text (s : String) : Denotes f (.text s) (f.text s)
  | enum (s : String) : Denotes f (.enum s) (f.text s)
  | integer {lexeme : String} (l : Lexeme) (isInteger : l.IsInteger) (hText : l.text = lexeme) :
      Denotes f (.integer lexeme) (f.integer l.integer)
  | float {lexeme : String} (l : Lexeme) (hText : l.text = lexeme) :
      Denotes f (.float lexeme) (f.float l.double)
  | list {items : List Literal} {as : List α} (hItems : DenotesItems f items as) :
      Denotes f (.list items) (f.list as)
  | object {fields : List (String × Literal)} {given entries : List (String × α)}
      (hFields : DenotesFields f fields given) (hKept : Entries.KeepsLast given entries) :
      Denotes f (.object fields) (f.object entries)

/-- The items of a list, one by one and in order. -/
inductive DenotesItems (f : Forms α) : List Literal → List α → Prop where
  | nil : DenotesItems f [] []
  | cons {item : Literal} {rest : List Literal} {a : α} {as : List α} (hItem : Denotes f item a)
      (hRest : DenotesItems f rest as) : DenotesItems f (item :: rest) (a :: as)

/-- All fields of an object, also those that a later one replaces. -/
inductive DenotesFields (f : Forms α) : List (String × Literal) → List (String × α) → Prop where
  | nil : DenotesFields f [] []
  | cons {key : String} {literal : Literal} {rest : List (String × Literal)} {a : α}
      {others : List (String × α)} (hField : Denotes f literal a)
      (hRest : DenotesFields f rest others) :
      DenotesFields f ((key, literal) :: rest) ((key, a) :: others)
end

mutual
/-- A literal stands for one value. -/
theorem Denotes.unique {literal : Literal} {a b : α} (h : Denotes f literal a)
    (h' : Denotes f literal b) : a = b := by
  cases literal with
  | list items =>
      cases h with | list hItems =>
      cases h' with | list hItems' =>
      rw [hItems.unique hItems']
  | object fields =>
      cases h with | object hFields hKept =>
      cases h' with | object hFields' hKept' =>
      obtain rfl := hFields.unique hFields'
      rw [Entries.keepsLast_iff.mp hKept, Entries.keepsLast_iff.mp hKept']
  | integer lexeme =>
      cases h with | integer l _ hText =>
      cases h' with | integer l' _ hText' =>
      obtain ⟨hMinus, hDigits, -⟩ := Lexeme.parts_of_text_eq (hText.trans hText'.symm)
      rw [Lexeme.integer, hMinus, hDigits, ← Lexeme.integer]
  | float lexeme =>
      cases h with | float l hText =>
      cases h' with | float l' hText' =>
      obtain ⟨hMinus, hDigits, hScale⟩ := Lexeme.parts_of_text_eq (hText.trans hText'.symm)
      rw [Lexeme.double, hMinus, hDigits, hScale, ← Lexeme.double]
  | «variable» name => cases h
  | other kind => cases h
  | _ =>
      cases h
      cases h'
      rfl

theorem DenotesItems.unique {items : List Literal} {as bs : List α} (h : DenotesItems f items as)
    (h' : DenotesItems f items bs) : as = bs := by
  cases items with
  | nil =>
      cases h
      cases h'
      rfl
  | cons item rest =>
      cases h with | cons hItem hRest =>
      cases h' with | cons hItem' hRest' =>
      rw [hItem.unique hItem', hRest.unique hRest']

theorem DenotesFields.unique {fields : List (String × Literal)} {as bs : List (String × α)}
    (h : DenotesFields f fields as) (h' : DenotesFields f fields bs) : as = bs := by
  cases fields with
  | nil =>
      cases h
      cases h'
      rfl
  | cons field rest =>
      cases h with | cons hField hRest =>
      cases h' with | cons hField' hRest' =>
      rw [hField.unique hField', hRest.unique hRest']
end

theorem plainFields_eq (fields : List (String × Value)) :
    Value.plainFields fields = Entries.mapValues Value.plain fields := by
  induction fields with
  | nil => rfl
  | cons field rest ih => rw [Value.plainFields, ih, Entries.mapValues, Entries.mapValues,
      List.map_cons]

mutual
/-- The plain form of a value that a literal stands for is the plain data that it
stands for. -/
theorem Denotes.plain {literal : Literal} {v : Value} (h : Denotes Value.forms literal v) :
    Denotes Json.forms literal v.plain := by
  cases literal with
  | list items =>
      cases h with | list hItems => exact .list hItems.plain
  | object fields =>
      cases h with | object hFields hKept =>
      have hPlain := hKept.mapValues Value.plain
      rw [← plainFields_eq, ← plainFields_eq] at hPlain
      exact .object hFields.plain hPlain
  | integer lexeme =>
      cases h with | integer l isInteger hText => exact .integer l isInteger hText
  | float lexeme =>
      cases h with | float l hText => exact .float l hText
  | «variable» name => cases h
  | other kind => cases h
  | null =>
      cases h
      exact .null
  | boolean b =>
      cases h
      exact .boolean b
  | text s =>
      cases h
      exact .text s
  | «enum» s =>
      cases h
      exact .enum s

theorem DenotesItems.plain {items : List Literal} {vs : List Value}
    (h : DenotesItems Value.forms items vs) :
    DenotesItems Json.forms items (Value.plainItems vs) := by
  cases items with
  | nil =>
      cases h
      exact .nil
  | cons item rest =>
      cases h with | cons hItem hRest => exact .cons hItem.plain hRest.plain

theorem DenotesFields.plain {fields : List (String × Literal)} {vs : List (String × Value)}
    (h : DenotesFields Value.forms fields vs) :
    DenotesFields Json.forms fields (Value.plainFields vs) := by
  cases fields with
  | nil =>
      cases h
      exact .nil
  | cons field rest =>
      cases h with | cons hField hRest => exact .cons hField.plain hRest.plain
end

/-- An integer that can be held is read as the one that is written. -/
theorem readInteger_written {l : Lexeme} (isInteger : l.IsInteger)
    (hFits : l.text.toList.countP Numeral.isDecimalDigit ≤ maxIntegerDigits) :
    Numeral.readInteger 10 l.text = .ok l.integer := by
  rw [l.countP_text isInteger] at hFits
  rw [l.readInteger_text isInteger, if_neg (Nat.not_lt.mpr hFits), Lexeme.integer]

/-- Once a literal has a value that it stands for, nothing else is possible. -/
theorem value_eq_ok_iff_of_denotes {literal : Literal} {v w : Value}
    (hValue : value literal = .ok w) (h : Denotes Value.forms literal w) :
    value literal = .ok v ↔ Denotes Value.forms literal v := by
  rw [hValue]
  constructor
  · rintro ⟨⟩
    exact h
  · intro h'
    rw [h.unique h']

mutual
/-- Evaluating gives what a literal stands for. -/
theorem value_eq_ok_iff {literal : Literal} (h : literal.IsWritten) {v : Value} :
    value literal = .ok v ↔ Denotes Value.forms literal v := by
  cases literal with
  | list items =>
      have hItems := @values_eq_ok_iff items h
      constructor
      · intro hValue
        obtain ⟨vs, hValues, rfl⟩ := map_eq_ok_iff.mp hValue
        exact .list (hItems.mp hValues)
      · intro hDenotes
        cases hDenotes with | list hDenoted =>
        exact map_eq_ok_iff.mpr ⟨_, hItems.mpr hDenoted, rfl⟩
  | object fields =>
      have hFields := @pairs_eq_ok_iff fields h
      constructor
      · intro hValue
        obtain ⟨given, hPairs, rfl⟩ := map_eq_ok_iff.mp hValue
        exact .object (hFields.mp hPairs) (Entries.ofPairs_keepsLast given)
      · intro hDenotes
        cases hDenotes with | object hDenoted hKept =>
        rw [Entries.keepsLast_iff.mp hKept]
        exact map_eq_ok_iff.mpr ⟨_, hFields.mpr hDenoted, rfl⟩
  | integer lexeme =>
      obtain ⟨⟨l, isInteger, rfl⟩, hFits⟩ := h
      have hValue : value (.integer l.text) = .ok (.integer l.integer) := by
        rw [value, readInteger_written isInteger hFits]
        rfl
      exact value_eq_ok_iff_of_denotes hValue (.integer l isInteger rfl)
  | float lexeme =>
      obtain ⟨l, rfl⟩ := h
      have hValue : value (.float l.text) = .ok (.float l.double) := by
        rw [value, l.readFloat_text]
        rfl
      exact value_eq_ok_iff_of_denotes hValue (.float l rfl)
  | null => exact value_eq_ok_iff_of_denotes rfl .null
  | boolean b => exact value_eq_ok_iff_of_denotes rfl (.boolean b)
  | text s => exact value_eq_ok_iff_of_denotes rfl (.text s)
  | «enum» s => exact value_eq_ok_iff_of_denotes rfl (.enum s)
  | «variable» name =>
      constructor
      · rintro ⟨⟩
      · rintro ⟨⟩
  | other kind =>
      constructor
      · rintro ⟨⟩
      · rintro ⟨⟩

theorem values_eq_ok_iff {items : List Literal}
    (h : Literal.ItemLeaves Literal.LeafWritten items) {vs : List Value} :
    values items = .ok vs ↔ DenotesItems Value.forms items vs := by
  cases items with
  | nil =>
      constructor
      · rintro ⟨⟩
        exact .nil
      · rintro ⟨⟩
        rfl
  | cons item rest =>
      have hItem := @value_eq_ok_iff item h.1
      have hRest := @values_eq_ok_iff rest h.2
      constructor
      · intro hValues
        obtain ⟨first, hFirst, hTail⟩ := bind_eq_ok_iff.mp hValues
        obtain ⟨others, hOthers, hBuilt⟩ := bind_eq_ok_iff.mp hTail
        obtain rfl := Except.ok.inj hBuilt
        exact .cons (hItem.mp hFirst) (hRest.mp hOthers)
      · intro hDenotes
        cases hDenotes with | cons hFirst hOthers =>
        exact bind_eq_ok_iff.mpr ⟨_, hItem.mpr hFirst,
          bind_eq_ok_iff.mpr ⟨_, hRest.mpr hOthers, rfl⟩⟩

theorem pairs_eq_ok_iff {fields : List (String × Literal)}
    (h : Literal.FieldLeaves Literal.LeafWritten fields) {vs : List (String × Value)} :
    pairs fields = .ok vs ↔ DenotesFields Value.forms fields vs := by
  cases fields with
  | nil =>
      constructor
      · rintro ⟨⟩
        exact .nil
      · rintro ⟨⟩
        rfl
  | cons field rest =>
      have hField := @value_eq_ok_iff field.2 h.1
      have hRest := @pairs_eq_ok_iff rest h.2
      constructor
      · intro hPairs
        obtain ⟨first, hFirst, hTail⟩ := bind_eq_ok_iff.mp hPairs
        obtain ⟨others, hOthers, hBuilt⟩ := bind_eq_ok_iff.mp hTail
        obtain rfl := Except.ok.inj hBuilt
        exact .cons (hField.mp hFirst) (hRest.mp hOthers)
      · intro hDenotes
        cases hDenotes with | cons hFirst hOthers =>
        exact bind_eq_ok_iff.mpr ⟨_, hField.mpr hFirst,
          bind_eq_ok_iff.mpr ⟨_, hRest.mpr hOthers, rfl⟩⟩
end

/-- The faults of some nodes: one for each that cannot be part of a constant. -/
def nodeFaults (nodes : List Literal) : List BuildError :=
  (nodes.filter (!·.isConstant)).map (.unsupportedValue ·.kind)

theorem nodeFaults_append (first second : List Literal) :
    nodeFaults (first ++ second) = nodeFaults first ++ nodeFaults second := by
  simp [nodeFaults]

mutual
/-- Where numbers are written as they should be, only nodes of other kinds are wrong. -/
theorem literalFaults_eq_nodes {literal : Literal} (h : literal.IsWritten) :
    literalFaults literal = nodeFaults literal.nodes := by
  cases literal with
  | list items => exact itemFaults_eq_nodes h
  | object fields => exact entryFaults_eq_nodes h
  | integer lexeme =>
      rw [literalFaults, numeralFaults_integer h.1, if_neg (Nat.not_lt.mpr h.2)]
      rfl
  | float lexeme =>
      rw [literalFaults, numeralFaults_float h]
      rfl
  | _ => rfl

theorem itemFaults_eq_nodes {items : List Literal}
    (h : Literal.ItemLeaves Literal.LeafWritten items) :
    itemFaults items = nodeFaults (Literal.itemNodes items) := by
  cases items with
  | nil => rfl
  | cons item rest =>
      rw [itemFaults, Literal.itemNodes, nodeFaults_append, literalFaults_eq_nodes h.1,
        itemFaults_eq_nodes h.2]

theorem entryFaults_eq_nodes {fields : List (String × Literal)}
    (h : Literal.FieldLeaves Literal.LeafWritten fields) :
    entryFaults fields = nodeFaults (Literal.fieldNodes fields) := by
  cases fields with
  | nil => rfl
  | cons field rest =>
      rw [entryFaults, Literal.fieldNodes, nodeFaults_append, literalFaults_eq_nodes h.1,
        entryFaults_eq_nodes h.2]
end

theorem nodeFaults_eq_nil_iff {nodes : List Literal} :
    nodeFaults nodes = [] ↔ ∀ node ∈ nodes, node.isConstant = true := by
  simp [nodeFaults]

theorem head?_nodeFaults_iff {literal : Literal} {e : BuildError} :
    (nodeFaults literal.nodes).head? = some e ↔
      ∃ kind, literal.StartsFailing kind ∧ e = .unsupportedValue kind := by
  rw [nodeFaults, List.head?_map, List.head?_filter, Option.map_eq_some_iff]
  constructor
  · rintro ⟨node, hNode, rfl⟩
    obtain ⟨hFails, before, after, hNodes, hBefore⟩ := List.find?_eq_some_iff_append.mp hNode
    refine ⟨node.kind, ⟨before, node, after, hNodes, ?_, by simpa using hFails, rfl⟩, rfl⟩
    simpa using hBefore
  · rintro ⟨kind, ⟨before, node, after, hNodes, hBefore, hFails, rfl⟩, rfl⟩
    refine ⟨node, List.find?_eq_some_iff_append.mpr ⟨by simp [hFails], before, after, hNodes, ?_⟩,
      rfl⟩
    simpa using hBefore

/-- A literal without a value fails with the kind of the first node that is to blame. -/
theorem value_eq_error_iff {literal : Literal} (h : literal.IsWritten) {e : BuildError} :
    value literal = .error e ↔
      ∃ kind, literal.StartsFailing kind ∧ e = .unsupportedValue kind := by
  rw [value_failsFirst literal e, literalFaults_eq_nodes h, head?_nodeFaults_iff]

/-- The arguments of a directive are read as the fields of an object. -/
theorem value_arguments (given : List (String × Literal)) :
    value (.object given) = (arguments given).map .object := by
  rw [value, arguments]
  cases pairs given with
  | ok built => rfl
  | error e => rfl

section

variable {naming : Naming} {applied : AppliedDirective} {name : DirectiveName}
  (hName : naming.read? applied.name = some name)
include hName

/-- A directive whose name is read has the arguments that an object with them has as its
value. -/
theorem directive_eq_ok_iff_value {d : Directive} :
    directive naming applied = .ok d ↔ d.name = name.name ∧ d.provider = name.provider ∧
      value (.object applied.arguments) = .ok (.object d.args) := by
  rw [directive_eq_ok_iff, value_arguments, map_eq_ok_iff]
  constructor
  · rintro ⟨name', args, hRead, hArgs, rfl⟩
    obtain rfl := Option.some.inj (hRead.symm.trans hName)
    exact ⟨rfl, rfl, args, hArgs, rfl⟩
  · rintro ⟨hOwn, hProvider, args, hArgs, hBuilt⟩
    obtain rfl := Value.object.inj hBuilt
    exact ⟨name, d.args, hName, hArgs, by rw [← hOwn, ← hProvider]⟩

/-- Such a directive fails as the object does. -/
theorem directive_eq_error_iff_value {e : BuildError} :
    directive naming applied = .error e ↔ value (.object applied.arguments) = .error e := by
  rw [directive_failsFirst, value_failsFirst, directiveFaults, nameFaults, hName,
    if_neg (Option.some_ne_none name), List.nil_append, literalFaults]

end

/-- The plain data that a literal stands for is that of its value. -/
theorem denotes_plain_iff {literal : Literal} {v : Value} (h : Denotes Value.forms literal v)
    {data : Json} : Denotes Json.forms literal data ↔ data = v.plain := by
  constructor
  · intro hData
    exact hData.unique h.plain
  · rintro rfl
    exact h.plain

/-- The meaning of literals and of the arguments of directives. A value is the one that
the literal stands for, in both forms; without one the first node that cannot be part of
a constant is reported, wherever it stands. -/
theorem value_denotes {literal : Literal} (h : literal.IsWritten) :
    ((∃ v, value literal = .ok v) ↔ ∀ node ∈ literal.nodes, node.isConstant = true) ∧
    (∀ e, value literal = .error e ↔
      ∃ kind, literal.StartsFailing kind ∧ e = .unsupportedValue kind) ∧
    (∀ v, value literal = .ok v ↔ Denotes Value.forms literal v) ∧
    (∀ v, value literal = .ok v → ∀ data, Denotes Json.forms literal data ↔ data = v.plain) ∧
    ∀ naming applied name, naming.read? applied.name = some name →
      literal = .object applied.arguments →
      (∀ d, directive naming applied = .ok d ↔ d.name = name.name ∧ d.provider = name.provider ∧
        Denotes Value.forms literal (.object d.args)) ∧
      (∀ e, directive naming applied = .error e ↔
        ∃ kind, literal.StartsFailing kind ∧ e = .unsupportedValue kind) ∧
      ∀ d, directive naming applied = .ok d →
        ∀ data, Denotes Json.forms literal data ↔ data = .object d.plainArgs := by
  refine ⟨?_, fun e => value_eq_error_iff h, fun v => value_eq_ok_iff h, ?_, ?_⟩
  · rw [(value_failsFirst literal).exists_ok_iff, literalFaults_eq_nodes h, nodeFaults_eq_nil_iff]
  · intro v hValue data
    exact denotes_plain_iff ((value_eq_ok_iff h).mp hValue)
  · rintro naming applied name hName rfl
    refine ⟨fun d => ?_, fun e => ?_, fun d hDirective data => ?_⟩
    · rw [directive_eq_ok_iff_value hName, value_eq_ok_iff h]
    · rw [directive_eq_error_iff_value hName, value_eq_error_iff h]
    · obtain ⟨-, -, hValue⟩ := (directive_eq_ok_iff_value hName).mp hDirective
      exact denotes_plain_iff ((value_eq_ok_iff h).mp hValue)

/-- An object in which a key is given twice, with another one in between. -/
def repeatedKey : Literal :=
  .object [("a", .integer "60"), ("b", .null), ("a", .list [.enum "E", .text "t"])]

theorem repeatedKey_denotes : repeatedKey.IsWritten ∧
    ∀ data, Denotes Json.forms repeatedKey data ↔
      data = .object [("a", .list [.text "E", .text "t"]), ("b", .null)] := by
  have hSixty : IsIntegerLexeme "60" :=
    @isIntegerLexeme_of_isWhole ['6', '0'] ⟨by simp, by simp [Numeral.isDecimalDigit], by simp⟩
  have hWritten : repeatedKey.IsWritten := by
    refine ⟨⟨hSixty, by decide⟩, ?_⟩
    simp [Literal.FieldLeaves, Literal.Leaves, Literal.ItemLeaves, Literal.LeafWritten]
  have hValue : value repeatedKey =
      .ok (.object [("a", .list [.text "E", .text "t"]), ("b", .null)]) := by
    rfl
  exact ⟨hWritten, (value_denotes hWritten).2.2.2.1 _ hValue⟩

example : value (.object [("a", .variable "x"), ("a", .null)]) =
    .error (.unsupportedValue .variable) := rfl

end Build
end SchemaModels
