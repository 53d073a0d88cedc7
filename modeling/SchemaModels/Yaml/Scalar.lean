import SchemaModels.Files.Decoding
import SchemaModels.Yaml.Cursor
import SchemaModels.Yaml.Error

/-!
Scalars in a YAML text: quoted, plain, and in blocks. A line end inside a quoted
or a plain scalar counts as a space, and of more line ends in a row all but the
first are kept.
-/
namespace SchemaModels.Yaml

/-- Something read at a cursor, and the cursor behind it. -/
abbrev Reading (α : Type) := Except Error (α × Cursor)

/-- What some line ends in a row stand for. -/
def foldBreaks (first : Char) (others : List Char) : List Char :=
  if first ≠ '\n' then first :: others
  else if others.isEmpty then [' '] else others

/-- The line ends from a cursor on, with the blanks in front of each. No mark
between documents may stand at the start of a line. Each turn takes a line end,
so `fuel` bounds them by the length of the text. -/
def quotedBreaks : Nat → Cursor → Reading (List Char)
  | 0, _ => .error .malformed
  | fuel + 1, cursor =>
    if atAnyDocumentMark cursor.rest then .error .malformed
    else
      let cursor := cursor.skipWhile fun c => c == ' ' || c == '\t'
      match cursor.takeBreak? with
      | none => .ok ([], cursor)
      | some (c, cursor) =>
        (quotedBreaks fuel cursor).map fun (breaks, cursor) => (c :: breaks, cursor)

/-- Blanks and line ends inside a quoted scalar. -/
def quotedSpaces (cursor : Cursor) : Reading (List Char) :=
  let isGap (c : Char) : Bool := c == ' ' || c == '\t'
  let gap := cursor.rest.takeWhile isGap
  let cursor := cursor.skipWhile isGap
  match cursor.rest with
  | [] => .error .malformed
  | _ =>
    match cursor.takeBreak? with
    | none => .ok (gap, cursor)
    | some (first, cursor) =>
      (quotedBreaks (cursor.rest.length + 1) cursor).map fun (others, cursor) =>
        (foldBreaks first others, cursor)

/-- The character that a letter after a backslash stands for. -/
def letterEscape? (c : Char) : Option Char :=
  let table : List (Char × Nat) := [('0', 0), ('a', 7), ('b', 8), ('t', 9), ('\t', 9), ('n', 10),
    ('v', 11), ('f', 12), ('r', 13), ('e', 27), (' ', 32), ('\x22', 34), ('\\', 92), ('/', 47),
    ('N', 0x85), ('_', 0xa0), ('L', 0x2028), ('P', 0x2029)]
  (table.lookup c).map Char.ofNat

/-- The number of digits in an escape by code. -/
def codeWidth? (c : Char) : Option Nat :=
  if c = 'x' then some 2 else if c = 'u' then some 4 else if c = 'U' then some 8 else none

/-- The character of a code. A surrogate is read as the replacement character. -/
def characterOf (code : Nat) : Except Error Char :=
  if 0x80000000 ≤ code then .error .hugeCodePoint
  else if 0x110000 ≤ code then .error .codePoint
  else if 0xd800 ≤ code && code < 0xe000 then .ok (Char.ofNat 0xfffd)
  else .ok (Char.ofNat code)

/-- An escape from behind its backslash on. -/
def quotedEscape (cursor : Cursor) : Reading (List Char) :=
  match cursor.rest with
  | [] => .error .malformed
  | c :: rest =>
    match letterEscape? c, codeWidth? c with
    | some char, _ => .ok ([char], cursor.next)
    | none, some width =>
      let digits := rest.take width
      if digits.length = width then
        match Text.hexNumber? digits with
        | some code => (characterOf code).map fun char => ([char], cursor.forward (width + 1))
        | none => .error .malformed
      else .error .malformed
    | none, none =>
      match cursor.takeBreak? with
      | some (_, cursor) => quotedBreaks (cursor.rest.length + 1) cursor
      | none => .error .malformed

/-- The characters of a quoted scalar up to its closing quote. Each turn takes a
character at least. -/
def quotedText (double : Bool) : Nat → Cursor → Except Error (List Char × Cursor)
  | 0, _ => .error .malformed
  | fuel + 1, cursor =>
    match cursor.rest with
    | [] => .error .malformed
    | c :: rest => do
      if isSeparator c then
        let (gap, cursor) ← quotedSpaces cursor
        let (chars, cursor) ← quotedText double fuel cursor
        return (gap ++ chars, cursor)
      else if !double && c == Text.singleQuote && rest.head? == some Text.singleQuote then
        let (chars, cursor) ← quotedText double fuel (cursor.forward 2)
        return (Text.singleQuote :: chars, cursor)
      else if c == (if double then Text.doubleQuote else Text.singleQuote) then
        return ([], cursor.next)
      else if double && c == '\\' then
        let (escaped, cursor) ← quotedEscape cursor.next
        let (chars, cursor) ← quotedText double fuel cursor
        return (escaped ++ chars, cursor)
      else
        let (chars, cursor) ← quotedText double fuel cursor.next
        return (c :: chars, cursor)

/-- A quoted scalar from its opening quote on. -/
def quotedScalar (double : Bool) (cursor : Cursor) : Reading String :=
  (quotedText double (cursor.rest.length + 1) cursor.next).map fun (chars, cursor) =>
    (String.ofList chars, cursor)

/-- Where one piece of a plain scalar ends. -/
def endsPlain (flow : Bool) : List Char → Bool
  | [] => true
  | c :: rest =>
    isSeparator c || (flow && (c == ',' || c == '?' || c == '[' || c == ']' || c == '{' || c == '}'))
      || (c == ':' && endsOr (fun d => isSeparator d || (flow &&
        (d == ',' || d == '[' || d == ']' || d == '{' || d == '}'))) rest)

/-- The length of a piece of a plain scalar. -/
def plainLength (flow : Bool) : List Char → Nat
  | [] => 0
  | c :: rest => if endsPlain flow (c :: rest) then 0 else plainLength flow rest + 1

/-- The line ends between two pieces of a plain scalar, and nothing if a mark
between documents follows one of them. -/
def plainBreaks : Nat → Cursor → Option (List Char) × Cursor
  | 0, cursor => (none, cursor)
  | fuel + 1, cursor =>
    if atAnyDocumentMark cursor.rest then (none, cursor)
    else
      let cursor := cursor.skipWhile (· == ' ')
      match cursor.takeBreak? with
      | none => (some [], cursor)
      | some (c, cursor) =>
        let (breaks, cursor) := plainBreaks fuel cursor
        (breaks.map (c :: ·), cursor)

/-- What stands between two pieces of a plain scalar, if there may be a next
one, and whether a line ends there. -/
def plainSpaces (cursor : Cursor) : Option (List Char) × Bool × Cursor :=
  let gap := cursor.rest.takeWhile (· == ' ')
  let cursor := cursor.skipWhile (· == ' ')
  match cursor.takeBreak? with
  | none => (if gap.isEmpty then none else some gap, false, cursor)
  | some (first, cursor) =>
    let (others, cursor) := plainBreaks (cursor.rest.length + 1) cursor
    (others.map (foldBreaks first), true, cursor)

/-- A plain scalar, and whether a line ended behind its last piece. Its further
lines have to be indented at least as far as `indent`. -/
def plainText (flow : Bool) (indent : Int) : Nat → Cursor → List Char × Bool × Cursor
  | 0, cursor => ([], false, cursor)
  | fuel + 1, cursor =>
    let length := if cursor.rest.head? == some '#' then 0 else plainLength flow cursor.rest
    let piece := cursor.rest.take length
    if length = 0 then ([], false, cursor)
    else
      let (spaces, ended, cursor) := plainSpaces (cursor.forward length)
      match spaces with
      | none => (piece, ended, cursor)
      | some gap =>
        if cursor.rest.head? == some '#' || (!flow && (cursor.column : Int) < indent) then
          (piece, ended, cursor)
        else
          let (more, endedLater, after) := plainText flow indent fuel cursor
          if more.isEmpty then (piece, ended, after) else (piece ++ gap ++ more, endedLater, after)

/-- What happens to the line ends at the end of a block. -/
inductive Chomping where
  | strip
  | clip
  | keep
  deriving DecidableEq, Repr

def chomping? (c : Char) : Option Chomping :=
  if c = '+' then some .keep else if c = '-' then some .strip else none

/-- The indentation that a digit asks for. -/
def blockIndent? (c : Char) : Option Nat :=
  if '1' ≤ c && c ≤ '9' then some (c.toNat - 48) else none

/-- The marks at the head of a block: what happens at its end, and its
indentation. -/
def blockHead (cursor : Cursor) : Reading (Chomping × Option Nat) :=
  let (chomping, indent, cursor) := match cursor.rest with
    | a :: b :: _ =>
      match chomping? a, blockIndent? a, chomping? b, blockIndent? b with
      | some chomping, _, _, some indent => (chomping, some indent, cursor.forward 2)
      | some chomping, _, _, none => (chomping, none, cursor.next)
      | none, some indent, some chomping, _ => (chomping, some indent, cursor.forward 2)
      | none, some indent, none, _ => (Chomping.clip, some indent, cursor.next)
      | none, none, _, _ => (Chomping.clip, none, cursor)
    | [a] =>
      match chomping? a, blockIndent? a with
      | some chomping, _ => (chomping, none, cursor.next)
      | none, some indent => (Chomping.clip, some indent, cursor.next)
      | none, none => (Chomping.clip, none, cursor)
    | [] => (Chomping.clip, none, cursor)
  let headEnds := endsOr (fun c => c == ' ' || isBreak c) cursor.rest
  let cursor := cursor.skipComment
  if headEnds && endsOr isBreak cursor.rest then
    .ok ((chomping, indent), match cursor.takeBreak? with
      | some (_, cursor) => cursor
      | none => cursor)
  else .error .malformed

/-- The empty lines in front of a block and the widest indentation in them. -/
def blockStart : Nat → Cursor → List Char × Nat × Cursor
  | 0, cursor => ([], 0, cursor)
  | fuel + 1, cursor =>
    let cursor := cursor.skipWhile (· == ' ')
    match cursor.takeBreak? with
    | none => ([], cursor.column, cursor)
    | some (c, after) =>
      let (breaks, widest, last) := blockStart fuel after
      (c :: breaks, max cursor.column widest, last)

/-- The empty lines inside a block of a known indentation. -/
def blockBreaks (indent : Nat) : Nat → Cursor → List Char × Cursor
  | 0, cursor => ([], cursor)
  | fuel + 1, cursor =>
    let cursor := cursor.skipIndent indent
    match cursor.takeBreak? with
    | none => ([], cursor)
    | some (c, cursor) =>
      let (breaks, cursor) := blockBreaks indent fuel cursor
      (c :: breaks, cursor)

def startsWithBlank (chars : List Char) : Bool :=
  match chars with
  | c :: _ => c == ' ' || c == '\t'
  | [] => false

/-- The lines of a block. `breaks` are the empty lines in front of the next one.
In a folded block a line end between two lines that do not start with a blank
counts as a space, or as nothing in front of empty lines. -/
def blockLines (folded : Bool) (chomping : Chomping) (indent : Nat) :
    Nat → List Char → Cursor → List Char × Cursor
  | 0, breaks, cursor => (breaks, cursor)
  | fuel + 1, breaks, cursor =>
    let line := cursor.rest.takeWhile (!isBreak ·)
    let behind := cursor.forward line.length
    let (lineEnd, next) := match behind.takeBreak? with
      | some (c, next) => ([c], next)
      | none => ([], behind)
    let (following, next) := blockBreaks indent (next.rest.length + 1) next
    if next.column = indent && !next.rest.isEmpty then
      let joins := folded && lineEnd == ['\n'] && !startsWithBlank line &&
        !startsWithBlank next.rest
      let between := if joins then (if following.isEmpty then [' '] else []) else lineEnd
      let (more, last) := blockLines folded chomping indent fuel following next
      (breaks ++ line ++ between ++ more, last)
    else
      let final := match chomping with
        | .strip => []
        | .clip => lineEnd
        | .keep => lineEnd ++ following
      (breaks ++ line ++ final, next)

/-- A block from its mark on. `parent` is the indentation of what holds it. -/
def blockScalar (folded : Bool) (parent : Int) (cursor : Cursor) :
    Except Error (String × Cursor) := do
  let ((chomping, asked), cursor) ← blockHead cursor.next
  let least := max (parent + 1) 1
  let fuel := cursor.rest.length + 1
  let (breaks, indent, cursor) := match asked with
    | none =>
      let (breaks, widest, cursor) := blockStart fuel cursor
      (breaks, max least.toNat widest, cursor)
    | some increment =>
      let indent := (least + increment - 1).toNat
      let (breaks, cursor) := blockBreaks indent fuel cursor
      (breaks, indent, cursor)
  if cursor.column = indent && !cursor.rest.isEmpty then
    let (chars, cursor) := blockLines folded chomping indent fuel breaks cursor
    return (String.ofList chars, cursor)
  else
    return (String.ofList (if chomping = .keep then breaks else []), cursor)

end SchemaModels.Yaml
