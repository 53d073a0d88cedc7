import SchemaModels.Yaml.Scalar
import SchemaModels.Yaml.Token

/-!
The tokens of a YAML text. A text on one line becomes the key of a mapping only
when a colon follows it, so the token that marks a key, and the one that opens
its block, are put in front of tokens that are there already.
-/
namespace SchemaModels.Yaml

/-- A token that may turn out to begin a key: its position among the tokens and
in the text. A required one has to become a key. -/
structure PossibleKey where
  position : Nat
  required : Bool
  index : Nat
  line : Nat
  column : Nat

/-- The state of a lexer. `keys` has the possible keys by the number of flow
brackets around them. -/
structure Lexer where
  cursor : Cursor
  tokens : List Token
  flow : Nat
  indent : Int
  indents : List Int
  allowKey : Bool
  keys : List (Nat × PossibleKey)

namespace Lexer

def start (chars : List Char) : Lexer :=
  ⟨Cursor.ofChars chars, [], 0, -1, [], true, []⟩

abbrev Step := Except Error Lexer

def emit (lexer : Lexer) (token : Token) : Lexer := { lexer with tokens := lexer.tokens ++ [token] }

def insertAt (tokens : List Token) (position : Nat) (token : Token) : List Token :=
  tokens.take position ++ token :: tokens.drop position

/-- Whether a possible key is no longer possible: on an earlier line, or too far
back. -/
def isStale (lexer : Lexer) (key : PossibleKey) : Bool :=
  key.line != lexer.cursor.line || 1024 < lexer.cursor.index - key.index

/-- Drops the possible keys that are no longer possible. -/
def dropStale (lexer : Lexer) : Step :=
  if lexer.keys.any fun entry => lexer.isStale entry.2 && entry.2.required then .error .malformed
  else .ok { lexer with keys := lexer.keys.filter fun entry => !lexer.isStale entry.2 }

/-- The tokens that are seen before the next one is read. A token that may still
turn out to begin a key is not among them, nor is any behind it. -/
def settled (lexer : Lexer) : List Token :=
  let pending := lexer.keys.filter fun entry => !lexer.isStale entry.2
  let first := (pending.map (·.2.position)).min?
  lexer.tokens.take (first.getD lexer.tokens.length)

/-- Drops the possible key at the present level of brackets. -/
def dropKey (lexer : Lexer) : Step :=
  match lexer.keys.lookup lexer.flow with
  | none => .ok lexer
  | some key =>
    if key.required then .error .malformed
    else .ok { lexer with keys := lexer.keys.filter (·.1 != lexer.flow) }

/-- Notes that the next token may begin a key. -/
def noteKey (lexer : Lexer) : Step :=
  if !lexer.allowKey then .ok lexer
  else
    let required := lexer.flow == 0 && lexer.indent == lexer.cursor.column
    let cursor := lexer.cursor
    (dropKey lexer).map fun lexer =>
      { lexer with
        keys := lexer.keys ++
          [(lexer.flow, ⟨lexer.tokens.length, required, cursor.index, cursor.line,
            cursor.column⟩)] }

/-- The tokens that close the blocks that are indented further than a column,
and the indentations that are left. -/
def closing (column : Int) : Int → List Int → List Token × Int × List Int
  | indent, [] => ([], indent, [])
  | indent, outer :: rest =>
    if column < indent then
      let (tokens, left) := closing column outer rest
      (.blockEnd :: tokens, left)
    else ([], indent, outer :: rest)

/-- Closes the blocks that are indented further than a column. Inside brackets
indentation means nothing. -/
def closeBlocks (lexer : Lexer) (column : Int) : Lexer :=
  if lexer.flow != 0 then lexer
  else
    let (tokens, indent, indents) := closing column lexer.indent lexer.indents
    { lexer with indent := indent, indents := indents, tokens := lexer.tokens ++ tokens }

/-- The same lexer inside a block that starts at a column, if it is a new one. -/
def openBlock? (lexer : Lexer) (column : Nat) : Option Lexer :=
  if lexer.indent < column then
    some { lexer with indent := column, indents := lexer.indent :: lexer.indents }
  else none

/-- Opens a block at the cursor if it is a new one. -/
def openHere (lexer : Lexer) (token : Token) : Lexer :=
  match lexer.openBlock? lexer.cursor.column with
  | some opened => opened.emit token
  | none => lexer

def allowing (lexer : Lexer) (allow : Bool) : Lexer := { lexer with allowKey := allow }

/-- A token of some characters, after which the lexer goes on. -/
def take (lexer : Lexer) (count : Nat) (token : Token) : Lexer :=
  { lexer.emit token with cursor := lexer.cursor.forward count }

/-- A token that was read up to a cursor. -/
def took (lexer : Lexer) (token : Token) (cursor : Cursor) : Lexer :=
  { lexer.emit token with cursor := cursor }

/-- Past blanks, comments and line ends. After a line end outside of brackets a
key may begin. -/
def skipGaps (lexer : Lexer) : Nat → Lexer
  | 0 => lexer
  | fuel + 1 =>
    match lexer.cursor.skipComment.takeBreak? with
    | none => { lexer with cursor := lexer.cursor.skipComment }
    | some (_, cursor) =>
      { lexer with
        cursor := cursor, allowKey := lexer.allowKey || lexer.flow == 0 }.skipGaps fuel

/-- The name of an anchor, an alias or a directive. -/
def word? (cursor : Cursor) : Option (String × Cursor) :=
  let word := cursor.rest.takeWhile isWordChar
  if word.isEmpty then none else some (String.ofList word, cursor.forward word.length)

/-- A number in a directive. It may have no more digits than any other integer. -/
def number (cursor : Cursor) : Reading Nat :=
  let digits := cursor.rest.takeWhile Numeral.isDecimalDigit
  if digits.isEmpty then .error .malformed
  else if maxIntegerDigits < digits.length then .error (.numeral (.tooManyDigits digits.length))
  else .ok (Text.decimalNumber digits, cursor.forward digits.length)

def isSpaceOrBreak (c : Char) : Bool := c == ' ' || isBreak c

/-- A character that may stand in a tag as it is. -/
def isTagChar (c : Char) : Bool :=
  isWordChar c || [';', '/', '?', ':', '@', '&', '=', '+', '$', ',', '.', '!', '~', '*',
    Text.singleQuote, '(', ')', '[', ']'].contains c

/-- The bytes that are written by percent signs and hexadecimal digits. -/
def percentBytes : Nat → List Char → Option (List UInt8 × List Char)
  | 0, _ => none
  | fuel + 1, '%' :: a :: b :: rest =>
    match Text.hexNumber? [a, b] with
    | none => none
    | some n =>
      if rest.head? == some '%' then
        (percentBytes fuel rest).map fun (bytes, rest) => (UInt8.ofNat n :: bytes, rest)
      else some ([UInt8.ofNat n], rest)
  | _, _ => none

/-- The text of a tag: characters, and bytes of UTF-8 behind percent signs. -/
def tagText : Nat → Cursor → Option (List Char × Cursor)
  | 0, _ => none
  | fuel + 1, cursor =>
    match cursor.rest with
    | [] => some ([], cursor)
    | c :: _ =>
      if isTagChar c then (tagText fuel cursor.next).map fun (chars, cursor) => (c :: chars, cursor)
      else if c = '%' then
        match percentBytes (cursor.rest.length + 1) cursor.rest with
        | none => none
        | some (bytes, rest) =>
          match Decoding.readAll "utf-8" Decoding.readUtf8 0 0 bytes with
          | .error _ => none
          | .ok chars =>
            (tagText fuel (cursor.forward (cursor.rest.length - rest.length))).map
              fun (more, cursor) => (chars ++ more, cursor)
      else some ([], cursor)

/-- The text of a tag, which is not empty. -/
def tagText? (cursor : Cursor) : Option (String × Cursor) :=
  match tagText (cursor.rest.length + 1) cursor with
  | some (c :: chars, cursor) => some (String.ofList (c :: chars), cursor)
  | _ => none

/-- A handle of tags: an exclamation mark, or a word between two of them. -/
def tagHandle? (cursor : Cursor) : Option (String × Cursor) :=
  match cursor.rest with
  | '!' :: rest =>
    if rest.head? == some ' ' then some ("!", cursor.next)
    else
      let word := rest.takeWhile isWordChar
      match rest.dropWhile isWordChar with
      | '!' :: _ =>
        some (String.ofList ('!' :: word ++ ['!']), cursor.forward (word.length + 2))
      | _ => none
  | _ => none

/-- A tag at its exclamation mark. -/
def tag? (cursor : Cursor) : Option (TagName × Cursor) := do
  let (name, cursor) ←
    match cursor.rest.drop 1 with
    | '<' :: _ => do
      let (name, cursor) ← tagText? (cursor.forward 2)
      if cursor.rest.head? == some '>' then some (TagName.full name, cursor.next) else none
    | rest =>
      if endsOr isSeparator rest then some (TagName.full "!", cursor.next)
      else if (rest.takeWhile (!isSpaceOrBreak ·)).contains '!' then do
        let (handle, cursor) ← tagHandle? cursor
        let (name, cursor) ← tagText? cursor
        some (TagName.short handle name, cursor)
      else do
        let (name, cursor) ← tagText? cursor.next
        some (TagName.short "!" name, cursor)
  if endsOr isSpaceOrBreak cursor.rest then some (name, cursor) else none

/-- Past spaces. -/
def skipSpaces (cursor : Cursor) : Cursor := cursor.skipWhile (· == ' ')

/-- A version, of which only the first number counts. -/
def version (cursor : Cursor) : Except Error (Directive × Cursor) := do
  let (major, cursor) ← number (skipSpaces cursor)
  if cursor.rest.head? != some '.' then throw .malformed
  let (_, cursor) ← number cursor.next
  if endsOr isSpaceOrBreak cursor.rest then return (.version major, cursor) else throw .malformed

/-- A handle, and what it stands for. -/
def tagDirective? (cursor : Cursor) : Option (Directive × Cursor) := do
  let (handle, cursor) ← tagHandle? (skipSpaces cursor)
  if cursor.rest.head? != some ' ' then none
  let (start, cursor) ← tagText? (skipSpaces cursor)
  if endsOr isSpaceOrBreak cursor.rest then some (.tag handle start, cursor) else none

/-- What was read, if anything was. -/
def orMalformed {α : Type} : Option α → Except Error α
  | some a => .ok a
  | none => .error .malformed

/-- What a directive says, from behind its name on. -/
def directiveBody (name : String) (cursor : Cursor) : Reading Directive :=
  if name = "YAML" then version cursor
  else if name = "TAG" then orMalformed (tagDirective? cursor)
  else .ok (.other, cursor.skipWhile (!isBreak ·))

/-- A directive at its percent sign, with the rest of its line. -/
def directive (cursor : Cursor) : Except Error (Directive × Cursor) := do
  let (name, cursor) ← orMalformed (word? cursor.next)
  if !endsOr isSpaceOrBreak cursor.rest then throw .malformed
  let (directive, cursor) ← directiveBody name cursor
  let cursor := cursor.skipComment
  if !endsOr isBreak cursor.rest then throw .malformed
  match cursor.takeBreak? with
  | some (_, cursor) => return (directive, cursor)
  | none => return (directive, cursor)

/-- An anchor or an alias from behind its mark on. -/
def anchor? (cursor : Cursor) : Option (String × Cursor) := do
  let (name, cursor) ← word? cursor
  let mayFollow (c : Char) : Bool :=
    isSeparator c || ['?', ':', ',', ']', '}', '%', '@', '\x60'].contains c
  if endsOr mayFollow cursor.rest then some (name, cursor) else none

/-- The step of a token that was read, or of one that could not be. -/
def tookOrFail {α : Type} (lexer : Lexer) (token : α → Token) (read : Option (α × Cursor)) : Step :=
  (orMalformed read).map fun (a, cursor) => lexer.took (token a) cursor

/-- Closes all blocks in front of something that stands outside of them. -/
def endContent (lexer : Lexer) : Step :=
  (dropKey (lexer.closeBlocks (-1))).map (·.allowing false)

/-- A bracket that opens. -/
def openFlow (lexer : Lexer) (token : Token) : Step := do
  let lexer ← noteKey lexer
  return { (lexer.take 1 token).allowing true with flow := lexer.flow + 1 }

/-- A bracket that closes. One that was never opened fits nowhere. -/
def closeFlow (lexer : Lexer) (token : Token) : Step := do
  if lexer.flow = 0 then throw .malformed
  let lexer ← dropKey lexer
  return { (lexer.take 1 token).allowing false with flow := lexer.flow - 1 }

/-- The hyphen of an item of a sequence. -/
def blockEntry (lexer : Lexer) : Step := do
  if lexer.flow = 0 && !lexer.allowKey then throw .malformed
  let lexer := if lexer.flow = 0 then lexer.openHere .blockSequence else lexer
  let lexer ← dropKey (lexer.allowing true)
  return lexer.take 1 .blockEntry

/-- The question mark of a key. -/
def explicitKey (lexer : Lexer) : Step := do
  if lexer.flow = 0 && !lexer.allowKey then throw .malformed
  let lexer := if lexer.flow = 0 then lexer.openHere .blockMapping else lexer
  let lexer ← dropKey (lexer.allowing (lexer.flow == 0))
  return lexer.take 1 .key

/-- The colon of a value. If a possible key is in front of it, that is a key. -/
def valueMark (lexer : Lexer) : Step := do
  match lexer.keys.lookup lexer.flow with
  | some key =>
    let keys := lexer.keys.filter (·.1 != lexer.flow)
    let marked := { lexer with
      keys := keys, tokens := insertAt lexer.tokens key.position .key, allowKey := false }
    let opened := match (if lexer.flow = 0 then marked.openBlock? key.column else none) with
      | some opened => { opened with
          tokens := insertAt opened.tokens key.position .blockMapping }
      | none => marked
    return opened.take 1 .value
  | none =>
    if lexer.flow = 0 && !lexer.allowKey then throw .malformed
    let lexer := if lexer.flow = 0 then lexer.openHere .blockMapping else lexer
    return (lexer.allowing (lexer.flow == 0)).take 1 .value

/-- A scalar in quotes. -/
def quoted (lexer : Lexer) (double : Bool) : Step := do
  let lexer := (← noteKey lexer).allowing false
  let (text, cursor) ← quotedScalar double lexer.cursor
  return lexer.took (.scalar false text) cursor

/-- A scalar in a block of its own. -/
def block (lexer : Lexer) (folded : Bool) : Step := do
  let lexer ← dropKey (lexer.allowing true)
  let (text, cursor) ← blockScalar folded lexer.indent lexer.cursor
  return lexer.took (.scalar false text) cursor

/-- A plain scalar. -/
def plain (lexer : Lexer) : Step := do
  let lexer := (← noteKey lexer).allowing false
  let (chars, ended, cursor) :=
    plainText (lexer.flow != 0) (lexer.indent + 1) (lexer.cursor.rest.length + 1) lexer.cursor
  return (lexer.took (.scalar true (String.ofList chars)) cursor).allowing ended

/-- Whether a plain scalar may begin with a character. -/
def beginsPlain (flow : Bool) (c : Char) (rest : List Char) : Bool :=
  let indicators : List Char := ['-', '?', ':', ',', '[', ']', '{', '}', '#', '&', '*', '!', '|',
    '>', Text.singleQuote, Text.doubleQuote, '%', '@', '\x60']
  !(isSeparator c || indicators.contains c) ||
    (!endsOr isSeparator rest && (c == '-' || (!flow && (c == '?' || c == ':'))))

/-- The next token, which begins with a given character. -/
def token (lexer : Lexer) (c : Char) (rest : List Char) : Step :=
  let flow := lexer.flow != 0
  let separated := endsOr isSeparator rest
  if c = '%' && lexer.cursor.column = 0 then do
    let lexer ← lexer.endContent
    let (directive, cursor) ← directive lexer.cursor
    return lexer.took (.directive directive) cursor
  else if lexer.cursor.column = 0 && atDocumentMark '-' (c :: rest) then do
    return (← lexer.endContent).take 3 .documentStart
  else if lexer.cursor.column = 0 && atDocumentMark '.' (c :: rest) then do
    return (← lexer.endContent).take 3 .documentEnd
  else if c = '[' then lexer.openFlow .flowSequence
  else if c = '{' then lexer.openFlow .flowMapping
  else if c = ']' then lexer.closeFlow .flowSequenceEnd
  else if c = '}' then lexer.closeFlow .flowMappingEnd
  else if c = ',' then do return (← dropKey (lexer.allowing true)).take 1 .flowEntry
  else if c = '-' && separated then lexer.blockEntry
  else if c = '?' && (flow || separated) then lexer.explicitKey
  else if c = ':' && (flow || separated) then lexer.valueMark
  else if c = '*' then do
    let lexer := (← noteKey lexer).allowing false
    lexer.tookOrFail .alias (anchor? lexer.cursor.next)
  else if c = '&' then do
    let lexer := (← noteKey lexer).allowing false
    lexer.tookOrFail .anchor (anchor? lexer.cursor.next)
  else if c = '!' then do
    let lexer := (← noteKey lexer).allowing false
    lexer.tookOrFail .tag (tag? lexer.cursor)
  else if c = '|' && !flow then lexer.block false
  else if c = '>' && !flow then lexer.block true
  else if c = Text.singleQuote then lexer.quoted false
  else if c = Text.doubleQuote then lexer.quoted true
  else if beginsPlain flow c rest then lexer.plain
  else .error .malformed

/-- Reads one more token and all that goes with it, or nothing at the end of the
text. -/
def turn (lexer : Lexer) : Except Error (Bool × Lexer) := do
  let lexer ← (lexer.skipGaps (lexer.cursor.rest.length + 1)).dropStale
  let lexer := lexer.closeBlocks lexer.cursor.column
  match lexer.cursor.rest with
  | [] => return (true, ← lexer.endContent)
  | c :: rest => return (false, ← lexer.token c rest)

/-- The tokens up to the end of the text. Each turn takes a character at least. -/
def run : Nat → Lexer → TokenList
  | 0, lexer => ⟨lexer.tokens, some .malformed⟩
  | fuel + 1, lexer =>
    match lexer.turn with
    | .error e => ⟨lexer.settled, some e⟩
    | .ok (ended, lexer) => if ended then ⟨lexer.tokens, none⟩ else run fuel lexer

end Lexer

/-- The tokens of a text. A character that is not allowed spoils all of it, and
a byte order mark in front counts for nothing. -/
def TokenList.ofText (text : String) : TokenList :=
  let chars := text.toList
  if !chars.all isAllowed then ⟨[], some .malformed⟩
  else
    let lexer := Lexer.start chars
    let lexer := if chars.head?.map (·.toNat) == some 0xfeff then
      { lexer with cursor := lexer.cursor.next } else lexer
    lexer.run (chars.length + 2)

end SchemaModels.Yaml
