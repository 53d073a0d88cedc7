import SchemaModels.Yaml.Lexer
import SchemaModels.Yaml.Resolve
import SchemaModels.Yaml.Token

/-!
The nodes of a YAML document with their tags. An alias is a copy of the node
that it names. A mapping has the entries that other mappings give to it beside
its own.
-/
namespace SchemaModels.Yaml

/-- Whether a mapping merges others into itself. -/
inductive Merging where
  | absent
  | done
  /-- What stands at a merging key is no mapping and no sequence of mappings. -/
  | failed
  deriving DecidableEq

/-- A node. The entries that are merged into a mapping stand in front of its own. -/
inductive Node where
  | scalar (tag : Tag) (value : String)
  | sequence (tag : Tag) (items : List Node)
  | mapping (tag : Tag) (merged own : List (Node × Node)) (merging : Merging)

namespace Node

def tag : Node → Tag
  | .scalar tag _ => tag
  | .sequence tag _ => tag
  | .mapping tag .. => tag

/-- The entries that a node gives to a mapping that it is merged into. -/
def mergedEntries? : Node → Option (List (Node × Node))
  | .mapping _ merged own merging =>
    match merging with
    | .absent | .done => some (merged ++ own)
    | .failed => none
  | _ => none

/-- The entries that the value of a merging key gives. Of several mappings the
first one wins, so it comes last. -/
def mergeSource? : Node → Option (List (Node × Node))
  | .sequence _ items => (items.mapM mergedEntries?).map fun all => all.reverse.flatten
  | node => mergedEntries? node

/-- A mapping with the entries of others merged into it. -/
def ofEntries (tag : Tag) (given : List (Node × Node)) : Node :=
  let (keys, own) := given.partition fun entry => decide (entry.1.tag = .merge)
  if keys.isEmpty then .mapping tag [] own .absent
  else
    match keys.mapM fun entry => mergeSource? entry.2 with
    | some sources => .mapping tag sources.flatten own .done
    | none => .mapping tag [] own .failed

end Node

/-- The state of a composition: the tokens that are left, the handles of tags,
and the nodes that have an anchor. -/
structure Composition where
  tokens : List Token
  failure : Option Error
  handles : List (String × String)
  anchors : List (String × Node)

abbrev Composer (α : Type) := StateT Composition (Except Error) α

namespace Composer

/-- The next token, absent at the end of the text. -/
def peek : Composer (Option Token) := do
  let state ← get
  match state.tokens, state.failure with
  | token :: _, _ => return some token
  | [], some error => throw error
  | [], none => return none

def advance : Composer Unit := modify fun state => { state with tokens := state.tokens.drop 1 }

def fail {α : Type} : Composer α := throw .malformed

/-- Takes a token if it is next. -/
def skip (token : Token) : Composer Bool := do
  if (← peek) == some token then
    advance
    return true
  else return false

/-- Whether one of some tokens is next. -/
def atAny (tokens : List Token) : Composer Bool := do
  match ← peek with
  | none => return false
  | some token => return tokens.contains token

/-- The number of turns that suffice for the tokens that are left. -/
def fuel : Composer Nat := return (← get).tokens.length + 1

/-- What stands for nothing. -/
def emptyNode : Node := .scalar .null ""

/-- The full name that a tag stands for. -/
def fullName : TagName → Composer String
  | .full name => return name
  | .short handle rest => do
    match (← get).handles.lookup handle with
    | some start => return start ++ rest
    | none => fail

/-- An anchor and a tag in front of a node, in either order. -/
def properties : Composer (Option String × Option TagName) := do
  match ← peek with
  | some (.anchor name) =>
    advance
    match ← peek with
    | some (.tag tag) =>
      advance
      return (some name, some tag)
    | _ => return (some name, none)
  | some (.tag tag) =>
    advance
    match ← peek with
    | some (.anchor name) =>
      advance
      return (some name, some tag)
    | _ => return (none, some tag)
  | _ => return (none, none)

/-- Remembers a node under an anchor. -/
def remember (anchor : Option String) (node : Node) : Composer Unit := do
  match anchor with
  | none => return
  | some name => modify fun state => { state with anchors := (name, node) :: state.anchors }

/-- The tag of a node: the one that is given, or else the usual one. The tag
that is only an exclamation mark gives none. -/
def tagOr (given : Option String) (usual : Tag) : Tag :=
  match given with
  | some name => if name = "!" then usual else Tag.ofName name
  | none => usual

/-- A scalar. A plain one, and one whose tag is only an exclamation mark, is
what its form says. -/
def scalarNode (given : Option String) (plain : Bool) (value : String) : Node :=
  let byForm := match given with
    | none => plain
    | some name => name == "!"
  .scalar (tagOr given (if byForm then Tag.ofForm value else .text)) value

/-- The items of a block sequence up to its end. Inside a mapping a sequence may
be without an end of its own. -/
def blockItems (own : Bool) (item : Composer Node) : Nat → Composer (List Node)
  | 0 => fail
  | fuel + 1 => do
    if ← skip .blockEntry then
      let after : List Token :=
        if own then [.blockEntry, .blockEnd] else [.blockEntry, .key, .value, .blockEnd]
      let first ← if ← atAny after then pure emptyNode else item
      return first :: (← blockItems own item fuel)
    else if own then
      if ← skip .blockEnd then return [] else fail
    else return []

/-- The value of an entry, if there is one before one of some tokens. -/
def entryValue (after : List Token) (item : Composer Node) : Composer Node := do
  if ← skip .value then
    if ← atAny after then return emptyNode else item
  else return emptyNode

/-- The entries of a block mapping up to its end. -/
def blockEntries (item : Composer Node) : Nat → Composer (List (Node × Node))
  | 0 => fail
  | fuel + 1 => do
    let after : List Token := [.key, .value, .blockEnd]
    if ← skip .key then
      let key ← if ← atAny after then pure emptyNode else item
      let value ← entryValue after item
      return (key, value) :: (← blockEntries item fuel)
    else if ← skip .blockEnd then return []
    else fail

/-- The items of a sequence in brackets. A key in it is a mapping of one
entry. -/
def flowItems (item : Composer Node) : Bool → Nat → Composer (List Node)
  | _, 0 => fail
  | first, fuel + 1 => do
    if ← skip .flowSequenceEnd then return []
    if !first then
      if !(← skip .flowEntry) then fail
    if ← skip .flowSequenceEnd then return []
    let entry ←
      if ← skip .key then do
        let after : List Token := [.value, .flowEntry, .flowSequenceEnd]
        let key ← if ← atAny after then pure emptyNode else item
        let value ← entryValue [.flowEntry, .flowSequenceEnd] item
        pure (Node.ofEntries .mapping [(key, value)])
      else item
    return entry :: (← flowItems item false fuel)

/-- The entries of a mapping in braces. -/
def flowEntries (item : Composer Node) : Bool → Nat → Composer (List (Node × Node))
  | _, 0 => fail
  | first, fuel + 1 => do
    if ← skip .flowMappingEnd then return []
    if !first then
      if !(← skip .flowEntry) then fail
    if ← skip .flowMappingEnd then return []
    let entry ←
      if ← skip .key then do
        let after : List Token := [.value, .flowEntry, .flowMappingEnd]
        let key ← if ← atAny after then pure emptyNode else item
        let value ← entryValue [.flowEntry, .flowMappingEnd] item
        pure (key, value)
      else do
        let key ← item
        pure (key, emptyNode)
    return entry :: (← flowEntries item false fuel)

/-- A collection under an anchor. While it is composed an alias of it stands for
an empty one. -/
def collection (anchor : Option String) (empty : Node) (content : Composer Node) :
    Composer Node := do
  remember anchor empty
  let node ← content
  remember anchor node
  return node

/-- The places that differ in what may stand there. -/
inductive Place where
  | flow
  | block
  /-- In a block mapping, where a sequence needs no indentation. -/
  | entry
  deriving DecidableEq

/-- A node. It takes a token at least, so the number of tokens bounds how deep
nodes nest. -/
def node : Nat → Place → Composer Node
  | 0, _ => fail
  | depth + 1, place => do
    if let some (.alias name) ← peek then
      advance
      match (← get).anchors.lookup name with
      | some target => return target
      | none => fail
    else
      let (anchor, tagName) ← properties
      let given ← match tagName with
        | some name => some <$> fullName name
        | none => pure none
      let next ← peek
      if let some name := anchor then
        if ((← get).anchors.lookup name).isSome then fail
      let sequenceTag := tagOr given .sequence
      let mappingTag := tagOr given .mapping
      match next with
      | some (.scalar plain value) =>
        advance
        let scalar := scalarNode given plain value
        remember anchor scalar
        return scalar
      | some .flowSequence =>
        advance
        collection anchor (.sequence sequenceTag []) do
          return .sequence sequenceTag (← flowItems (node depth .flow) true (← fuel))
      | some .flowMapping =>
        advance
        collection anchor (Node.ofEntries mappingTag []) do
          return Node.ofEntries mappingTag (← flowEntries (node depth .flow) true (← fuel))
      | _ =>
        if next == some .blockSequence && place ≠ .flow then
          advance
          collection anchor (.sequence sequenceTag []) do
            return .sequence sequenceTag (← blockItems true (node depth .block) (← fuel))
        else if next == some .blockMapping && place ≠ .flow then
          advance
          collection anchor (Node.ofEntries mappingTag []) do
            return Node.ofEntries mappingTag (← blockEntries (node depth .entry) (← fuel))
        else if next == some .blockEntry && place = .entry then
          collection anchor (.sequence sequenceTag []) do
            return .sequence sequenceTag (← blockItems false (node depth .block) (← fuel))
        else if anchor.isSome || given.isSome then
          let scalar := scalarNode given true ""
          remember anchor scalar
          return scalar
        else fail

/-- The handles that every document has. -/
def standardHandles : List (String × String) := [("!", "!"), ("!!", Tag.standard)]

/-- The directives in front of a document: one version at most, and each handle
once. -/
def directives : Nat → Bool → List (String × String) → Composer (List (String × String))
  | 0, _, _ => fail
  | fuel + 1, versioned, handles => do
    match ← peek with
    | some (.directive (.version major)) =>
      advance
      if versioned || major ≠ 1 then fail
      directives fuel true handles
    | some (.directive (.tag handle start)) =>
      advance
      if (handles.lookup handle).isSome then fail
      directives fuel versioned (handles ++ [(handle, start)])
    | some (.directive .other) =>
      advance
      directives fuel versioned handles
    | _ => return handles

/-- Past the marks at the end of a document. -/
def skipEnds : Nat → Composer Unit
  | 0 => return
  | fuel + 1 => do if ← skip .documentEnd then skipEnds fuel

/-- The content of a document that begins with a mark. -/
def content : Composer Node := do
  let empty ← match ← peek with
    | none | some (.directive _) | some .documentStart | some .documentEnd => pure true
    | _ => pure false
  if empty then return emptyNode else node (← fuel) .block

/-- What stands behind a document: nothing, or the beginning of another one, which
is one too many. -/
def onlyEnds : Composer Unit := do
  skipEnds (← fuel)
  if (← peek).isSome then
    let _ ← directives (← fuel) false []
    let _ ← peek
    fail

/-- The only document of a text, or nothing if it has none. -/
def document : Composer (Option Node) := do
  match ← peek with
  | none => return none
  | some (.directive _) | some .documentStart =>
    let handles ← directives (← fuel) false []
    modify fun state => { state with handles := handles ++ standardHandles }
    if !(← skip .documentStart) then fail
    let root ← content
    onlyEnds
    return some root
  | _ =>
    let root ← node (← fuel) .block
    onlyEnds
    return some root

end Composer

/-- The only document that a text writes, if it writes one. -/
def Node.parse (text : String) : Except Error (Option Node) :=
  let list := TokenList.ofText text
  Composer.document.run' ⟨list.tokens, list.failure, Composer.standardHandles, []⟩

end SchemaModels.Yaml
