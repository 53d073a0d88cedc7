import SchemaModels.Yaml.Resolve

/-!
Writing a text as the value of an entry in a YAML mapping. It is written plain
if it reads back as a text that way, else in single quotes, and in double quotes
if it has characters that only escapes can write. A line that has grown long is
broken at a single space.
-/
namespace SchemaModels.Yaml.Writer

/-- The column after which a line may be broken. -/
def bestWidth : Nat := 80

/-- The indentation of the lines after the first. -/
def continuationIndent : Nat := 2

/-- A line end and the indentation of the next line. -/
def lineStart : List Char := '\n' :: List.replicate continuationIndent ' '

/-- A character that is written as it is: a line feed, or one of ASCII that
shows. -/
def isOrdinary (c : Char) : Bool := c == '\n' || (' ' ≤ c && c ≤ '~')

/-- Whether a text has a space next to a line feed, in the given order. -/
def hasPair (first second : Char) : List Char → Bool
  | a :: b :: rest => (a == first && b == second) || hasPair first second (b :: rest)
  | _ => false

/-- A character that cannot begin a plain text. -/
def isIndicator (c : Char) : Bool :=
  ['#', ',', '[', ']', '{', '}', '&', '*', '!', '|', '>', Text.singleQuote, Text.doubleQuote,
    '%', '@', '\x60'].contains c

/-- Whether a plain text may begin in this way. -/
def mayBegin (chars : List Char) : Bool :=
  match chars with
  | [] => true
  | c :: rest =>
    let isMark (mark : Char) : Bool :=
      match chars with
      | a :: b :: d :: _ => a == mark && b == mark && d == mark
      | _ => false
    !(isIndicator c || isMark '-' || isMark '.' ||
      ((c == '?' || c == ':' || c == '-') && endsOr isSeparator rest))

/-- Whether a plain text may go on in this way after a character: no colon in
front of a blank, and no number sign behind one. -/
def mayFollow (before : Char) : List Char → Bool
  | [] => true
  | c :: rest =>
    !(c == ':' && endsOr isSeparator rest) && !(c == '#' && isSeparator before) &&
      mayFollow c rest

/-- Whether a text of one line may stand as it is. -/
def isPlain (chars : List Char) : Bool :=
  match chars with
  | [] => false
  | first :: rest =>
    chars.all isOrdinary && !chars.contains '\n' && first != ' ' && chars.getLast? != some ' ' &&
      mayBegin chars && mayFollow first rest && Tag.ofForm (String.ofList chars) == .text

/-- Whether a text may stand in single quotes. -/
def isSingleQuoted (chars : List Char) : Bool :=
  chars.all isOrdinary && !hasPair ' ' '\n' chars && !hasPair '\n' ' ' chars

/-- A part of a text: spaces, line feeds, or other characters. -/
inductive Run where
  | spaces (count : Nat)
  | breaks (count : Nat)
  | words (chars : List Char)

/-- Puts a character in front of some runs. -/
def addChar (c : Char) (runs : List Run) : List Run :=
  if c = ' ' then
    match runs with
    | .spaces n :: rest => .spaces (n + 1) :: rest
    | runs => .spaces 1 :: runs
  else if c = '\n' then
    match runs with
    | .breaks n :: rest => .breaks (n + 1) :: rest
    | runs => .breaks 1 :: runs
  else
    match runs with
    | .words chars :: rest => .words (c :: chars) :: rest
    | runs => .words [c] :: runs

/-- The runs of a text. -/
def runsOf (chars : List Char) : List Run := chars.foldr addChar []

/-- Words as they stand in single quotes or plain. -/
def writeWords (quoted : Bool) (chars : List Char) : List Char :=
  if quoted then
    chars.flatMap fun c => if c = Text.singleQuote then [c, c] else [c]
  else chars

/-- The runs from a column on. A single space inside becomes a line end where
the line is too long. -/
def writeRuns (quoted : Bool) : Bool → Nat → List Run → List Char
  | _, _, [] => []
  | first, column, .spaces n :: rest =>
    if n = 1 && bestWidth < column && !first && !rest.isEmpty then
      lineStart ++ writeRuns quoted false continuationIndent rest
    else List.replicate n ' ' ++ writeRuns quoted false (column + n) rest
  | _, _, .breaks n :: rest =>
    List.replicate n '\n' ++ lineStart ++ writeRuns quoted false continuationIndent rest
  | _, column, .words chars :: rest =>
    let written := writeWords quoted chars
    written ++ writeRuns quoted false (column + written.length) rest

/-- The letter after a backslash that stands for a character. -/
def escapeLetter? (c : Char) : Option Char :=
  let table : List (Nat × Char) := [(0, '0'), (7, 'a'), (8, 'b'), (9, 't'), (10, 'n'), (11, 'v'),
    (12, 'f'), (13, 'r'), (27, 'e'), (34, '\x22'), (92, '\\'), (0x85, 'N'), (0xa0, '_'),
    (0x2028, 'L'), (0x2029, 'P')]
  table.lookup c.toNat

/-- The escape of a character, if it needs one in double quotes. -/
def escape? (c : Char) : Option (List Char) :=
  match escapeLetter? c with
  | some letter => some ['\\', letter]
  | none =>
    let n := c.toNat
    if ' ' ≤ c && c ≤ '~' then none
    else
      let digits (width : Nat) : List Char := (Text.hexDigits width n).map Char.toUpper
      if n < 0x100 then some ('\\' :: 'x' :: digits 2)
      else if n < 0x10000 then some ('\\' :: 'u' :: digits 4)
      else some ('\\' :: 'U' :: digits 8)

/-- The characters inside double quotes. `column` is where the characters begin
that are held back, and `held` is their number. After an escape, and in front of
a space, a line that is too long is broken; the backslash at its end keeps the
break out of the text, and one in front of a space keeps the space in it. -/
def writeDouble : Bool → Nat → Nat → List Char → List Char
  | _, _, _, [] => []
  | first, column, held, c :: rest =>
    match escape? c with
    | some escape =>
      let column := column + held + escape.length
      if !first && !rest.isEmpty && bestWidth < column - 1 then
        let guard := rest.head? == some ' '
        escape ++ '\\' :: lineStart ++ (if guard then ['\\'] else []) ++
          writeDouble false (continuationIndent + (if guard then 1 else 0)) 0 rest
      else escape ++ writeDouble false column 0 rest
    | none =>
      if !first && !rest.isEmpty && (c == ' ' || held == 0) && bestWidth < column + held then
        let guard := c == ' '
        '\\' :: lineStart ++ (if guard then ['\\'] else []) ++
          c :: writeDouble false (continuationIndent + (if guard then 1 else 0)) 1 rest
      else c :: writeDouble false column (held + 1) rest

/-- A text as the value behind a key. -/
def writeValue (key : String) (value : String) : List Char :=
  let chars := value.toList
  let column := key.length + 2
  if isPlain chars then writeRuns false true column (runsOf chars)
  else if isSingleQuoted chars then
    Text.singleQuote :: writeRuns true true (column + 1) (runsOf chars) ++ [Text.singleQuote]
  else Text.doubleQuote :: writeDouble true (column + 1) 0 chars ++ [Text.doubleQuote]

/-- An entry of a mapping whose key needs no quotes. -/
def writeEntry (key : String) (value : String) : String :=
  key ++ ": " ++ String.ofList (writeValue key value) ++ "\n"

end SchemaModels.Yaml.Writer
