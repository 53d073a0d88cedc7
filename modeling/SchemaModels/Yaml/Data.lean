import SchemaModels.Number.FloatText
import SchemaModels.Yaml.Moment
import SchemaModels.Yaml.Node

/-!
The data of a YAML document. Nodes are turned into data level by level: all that
is directly in a collection is settled before what is in the collections in it,
and the first fault in this order is the one that counts.
-/
namespace SchemaModels.Yaml

inductive Data where
  | null
  | boolean (b : Bool)
  | integer (n : Int)
  | float (x : Binary64)
  | text (s : String)
  | bytes (content : List UInt8)
  /-- A date or time, in words. -/
  | moment (words : String)
  | list (items : List Data)
  /-- The members stand as the text has them, which is not the order in which they come. -/
  | set (members : List Data)
  | mapping (entries : List (Data × Data))
  deriving Inhabited

namespace Data

/-- The number that a key counts as. -/
def number? : Data → Option Binary64
  | .boolean b => some (Binary64.ofInt (if b then 1 else 0))
  | .float x => some x
  | _ => none

/-- Whether two keys are the same one. Numbers are, if they are equal, and truth
values count as zero and one. -/
def sameKey : Data → Data → Bool
  | .null, .null => true
  | .text a, .text b => a == b
  | .bytes a, .bytes b => a == b
  | .moment a, .moment b => a == b
  | .float .notANumber, .float .notANumber => true
  | .integer a, .integer b => a == b
  | .integer a, other => (other.number?.bind (·.toInt?)) == some a
  | other, .integer b => (other.number?.bind (·.toInt?)) == some b
  | a, b =>
    match a.number?, b.number? with
    | some x, some y => x.equal y
    | _, _ => false

/-- Puts an entry into a mapping. A key that is there keeps its place. -/
def putEntry : List (Data × Data) → Data → Data → List (Data × Data)
  | [], key, value => [(key, value)]
  | (other, old) :: rest, key, value =>
    if sameKey other key then (other, value) :: rest else (other, old) :: putEntry rest key value

/-- The entries of a mapping, each key once. -/
def entriesOf (pairs : List (Data × Data)) : List (Data × Data) :=
  pairs.foldl (fun entries pair => putEntry entries pair.1 pair.2) []

end Data

/-- A numeral, or the fault of a text that is none. -/
def numeralOf {α : Type} : Except NumeralError α → Except Error α
  | .ok a => .ok a
  | .error e => .error (.numeral e)

/-- The sign of a number and the text behind it. Nothing at all is no number. -/
def splitNumber (text : String) : Except Error (Bool × List Char) :=
  match text.toList.filter (· != '_') with
  | [] => .error .emptyNumber
  | '-' :: rest => .ok (true, rest)
  | '+' :: rest => .ok (false, rest)
  | chars => .ok (false, chars)

/-- A number in base sixty from its places. -/
def sixtyBased (places : List Int) : Int := places.foldl (fun n place => 60 * n + place) 0

/-- The integer of a text without a sign. -/
def unsignedInteger (chars : List Char) : Except Error Int :=
  let read (base : Nat) (chars : List Char) : Except Error Int :=
    numeralOf (Numeral.readInteger base (String.ofList chars))
  match chars with
  | [] => .error .emptyNumber
  | ['0'] => .ok 0
  | '0' :: 'b' :: digits => read 2 digits
  | '0' :: 'x' :: digits => read 16 digits
  | '0' :: rest => read 8 ('0' :: rest)
  | _ =>
    if chars.contains ':' then ((colonParts chars).mapM (read 10)).map sixtyBased
    else read 10 chars

/-- The integer of a text. -/
def integerOf (text : String) : Except Error Int := do
  let (negative, unsigned) ← splitNumber text
  let n ← unsignedInteger unsigned
  return if negative then -n else n

/-- The sum of some places in base sixty, the last place first. Every step is rounded, and
`base` is what the next place counts. -/
def sumPlaces (base : Nat) (sum : Binary64) : List Binary64 → Except Error Binary64
  | [] => .ok sum
  | place :: rest =>
    let factor := Binary64.ofInt base
    if factor.isFinite then sumPlaces (base * 60) (sum.add (place.times factor)) rest
    else .error .hugePlace

/-- The double of a text. -/
def floatOf (text : String) : Except Error Binary64 := do
  let (negative, unsigned) ← splitNumber text
  let chars := unsigned.map Char.toLower
  let word := String.ofList chars
  if word == ".inf" then return .infinite negative
  else if word == ".nan" then return .notANumber
  else if chars.contains ':' then
    let places ← (colonParts chars).mapM fun place =>
      numeralOf (Numeral.readFloat (String.ofList place))
    let sum ← sumPlaces 1 (.zero false) places.reverse
    return sum.negatedIf negative
  else
    let x ← numeralOf (Numeral.readFloat word)
    return x.negatedIf negative

/-- The truth value of a word, in any case. -/
def booleanOf (text : String) : Except Error Bool :=
  let word := String.ofList (text.toList.map Char.toLower)
  if ["yes", "true", "on"].contains word then .ok true
  else if ["no", "false", "off"].contains word then .ok false
  else .error (.notBoolean word)

/-- The date or time of a text, in words. -/
def momentOf (text : String) : Except Error String :=
  let chars := match text.toList.reverse with
    | '\n' :: rest => rest.reverse
    | _ => text.toList
  match moment? chars with
  | none => .error .notMoment
  | some m =>
    match momentLiteral m with
    | .ok words => .ok words
    | .error fault => .error (.moment fault)

/-- The six bits of a character of base 64. -/
def sixBits? (c : Char) : Option Nat :=
  if 'A' ≤ c && c ≤ 'Z' then some (c.toNat - 65)
  else if 'a' ≤ c && c ≤ 'z' then some (c.toNat - 71)
  else if '0' ≤ c && c ≤ '9' then some (c.toNat + 4)
  else if c = '+' then some 62
  else if c = '/' then some 63
  else none

/-- The bytes of a text in base 64. Other characters are passed over. `place`
counts the characters of a group of four, `held` has the bits that are not used
yet, and `pads` counts the signs of equality in a row. -/
def base64 : Nat → Nat → Nat → List Char → Option (List UInt8)
  | place, _, _, [] => if place = 0 then some [] else none
  | place, held, pads, c :: rest =>
    if c = '=' then
      if 2 ≤ place && 4 ≤ place + (pads + 1) then some []
      else base64 place held (if 2 ≤ place then pads + 1 else pads) rest
    else
      match sixBits? c with
      | none => base64 place held pads rest
      | some bits =>
        let joined := held * 64 + bits
        if place = 0 then base64 1 bits 0 rest
        else if place = 1 then
          (base64 2 (joined % 16) 0 rest).map (UInt8.ofNat (joined / 16) :: ·)
        else if place = 2 then
          (base64 3 (joined % 4) 0 rest).map (UInt8.ofNat (joined / 4) :: ·)
        else (base64 0 0 0 rest).map (UInt8.ofNat joined :: ·)

/-- The data of a scalar, or nothing where its tag asks for a collection. -/
def scalarData? (tag : Tag) (value : String) : Except Error (Option Data) :=
  match tag with
  | .null => .ok (some .null)
  | .boolean => (booleanOf value).map fun b => some (.boolean b)
  | .integer => (integerOf value).map fun n => some (.integer n)
  | .float => (floatOf value).map fun x => some (.float x)
  | .moment => (momentOf value).map fun words => some (.moment words)
  | .text => .ok (some (.text value))
  | .binary =>
    if value.toList.all fun c => c.toNat < 128 then
      match base64 0 0 0 value.toList with
      | some content => .ok (some (.bytes content))
      | none => .error .malformed
    else .error .malformed
  | .sequence | .mapping | .set | .orderedMapping | .pairs => .ok none
  | .merge | .default | .unknown => .error .malformed

/-- The data of a mapping that stands for a scalar by its tag, and has a text by its mark for
a default value. Only a text can be a date or time. -/
def mappingData? (tag : Tag) (value : String) : Except Error (Option Data) :=
  if tag = .moment then .error .momentOfMapping else scalarData? tag value

namespace Node

/-- A key as it stands in a mapping: the mark for a default value is a text
there. -/
def asKey : Node → Node
  | .scalar .default value => .scalar .text value
  | node => node

mutual
/-- The text of a node where a scalar is asked for. A mapping gives the text of its
default value, which is never one that is merged into it. -/
def scalarText? : Node → Option String
  | .scalar _ value => some value
  | .sequence .. => none
  | .mapping _ _ own _ => defaultText? own

/-- The text at the first mark for a default value. -/
def defaultText? : List (Node × Node) → Option String
  | [] => none
  | (key, value) :: rest => if key.tag = .default then value.scalarText? else defaultText? rest
end

/-- The data of a node that is settled without looking into it. A collection under
the tag of one has to be looked into later. -/
def ownData? (node : Node) : Except Error (Option Data) :=
  match node with
  | .scalar tag value => scalarData? tag value
  | .sequence tag _ => if tag.isCollection then .ok none else .error .malformed
  | .mapping tag _ own _ =>
    if tag.isCollection then .ok none
    else
      match defaultText? own with
      | some value => mappingData? tag value
      | none => .error .malformed

/-- Settles what can be settled about a node without looking into it. Tells
whether it has to be looked into later. -/
def begins (node : Node) : Except Error Bool := node.ownData?.map (·.isNone)

/-- Settles some nodes, and gives those to look into later. -/
def beginAll : List Node → Except Error (List Node)
  | [] => .ok []
  | node :: rest => do
    let later ← node.begins
    let others ← beginAll rest
    return if later then node :: others else others

/-- Settles the entries of a mapping. Collections cannot be keys. -/
def beginEntries : List (Node × Node) → Except Error (List Node)
  | [] => .ok []
  | (key, value) :: rest => do
    if ← key.asKey.begins then throw .malformed
    let later ← value.begins
    let others ← beginEntries rest
    return if later then value :: others else others

/-- The key and the value of a mapping of one entry. -/
def onlyEntry? : Node → Option (Node × Node)
  | .mapping _ _ [entry] .absent => some entry
  | _ => none

/-- Settles mappings of one entry each. -/
def beginPairs : List Node → Except Error (List Node)
  | [] => .ok []
  | item :: rest =>
    match item.onlyEntry? with
    | none => .error .malformed
    | some (key, value) => do
      let first ← beginAll [key, value]
      let others ← beginPairs rest
      return first ++ others

/-- Looks into a node: settles what is directly in it, and gives what has to be
looked into later. -/
def lookInto : Node → Except Error (List Node)
  | .sequence .sequence items => beginAll items
  | .mapping .mapping merged own merging | .mapping .set merged own merging =>
    if merging = .failed then .error .malformed else beginEntries (merged ++ own)
  | .sequence .orderedMapping items | .sequence .pairs items => beginPairs items
  | _ => .error .malformed

/-- Looks into nodes level by level. -/
def checkLevels : Nat → List Node → Except Error Unit
  | 0, _ => .error .malformed
  | _, [] => .ok ()
  | depth + 1, level => do
    let next ← level.mapM lookInto
    checkLevels depth next.flatten

mutual
/-- The number of levels of a node. -/
def depth : Node → Nat
  | .scalar .. => 1
  | .sequence _ items => itemsDepth items + 1
  | .mapping _ merged own _ => max (entriesDepth merged) (entriesDepth own) + 1

def itemsDepth : List Node → Nat
  | [] => 0
  | item :: rest => max item.depth (itemsDepth rest)

def entriesDepth : List (Node × Node) → Nat
  | [] => 0
  | (key, value) :: rest => max (max key.depth value.depth) (entriesDepth rest)
end

mutual
/-- The data of a node without faults. The pairs of an ordered mapping are a list. -/
def toData (node : Node) : Data :=
  match node.ownData? with
  | .ok (some data) => data
  | _ =>
    match node with
    | .scalar .. => .null
    | .sequence tag items =>
      match tag with
      | .sequence => .list (itemsData items)
      | _ => .list (pairsData items)
    | .mapping tag merged own _ =>
      let entries := Data.entriesOf (entriesData merged ++ entriesData own)
      match tag with
      | .mapping => .mapping entries
      | _ => .set (entries.map (·.1))

def itemsData : List Node → List Data
  | [] => []
  | item :: rest => item.toData :: itemsData rest

/-- The first entry of each mapping, as a list of two. -/
def pairsData : List Node → List Data
  | [] => []
  | .mapping _ _ own _ :: rest =>
    ((entriesData own).take 1).map (fun entry => .list [entry.1, entry.2]) ++ pairsData rest
  | _ :: rest => pairsData rest

/-- The entries of a mapping. The mark for a default value is a text as a key. -/
def entriesData : List (Node × Node) → List (Data × Data)
  | [] => []
  | (.scalar .default name, value) :: rest => (.text name, value.toData) :: entriesData rest
  | (key, value) :: rest => (key.toData, value.toData) :: entriesData rest
end

end Node

/-- The data that a text writes. A text without a document writes null. -/
def Data.parse (text : String) : Except Error Data := do
  match ← Node.parse text with
  | none => return .null
  | some node =>
    if ← node.begins then
      Node.checkLevels (node.depth + 1) [node]
    return node.toData

end SchemaModels.Yaml
