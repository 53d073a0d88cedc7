import SchemaModels.Json.Basic
import SchemaModels.Number.Numeral

/-!
Reading JSON. Three names of special numbers are accepted, a number with a
fraction or an exponent is a double, and of the members with one key the first
gives the place and the last the value. Half a surrogate pair stays what it is.
-/
namespace SchemaModels.Json

/-- Why a text is no JSON value. -/
inductive ReadError where
  | malformed
  | numeral (error : NumeralError)
  deriving DecidableEq, Repr

def isBlank (c : Char) : Bool := c == ' ' || c == '\t' || c == '\n' || c == '\r'

def skipBlanks (text : List Char) : List Char := text.dropWhile isBlank

/-- The rest after a given word. -/
def afterWord? : List Char → List Char → Option (List Char)
  | [], chars => some chars
  | c :: word, d :: chars => if c = d then afterWord? word chars else none
  | _ :: _, [] => none

/-- The UTF-16 unit of four hexadecimal digits. -/
def readUnit : List Char → Except ReadError (Nat × List Char)
  | a :: b :: c :: d :: rest =>
    match Text.hexNumber? [a, b, c, d] with
    | some n => .ok (n, rest)
    | none => .error .malformed
  | _ => .error .malformed

/-- The low surrogate that the next escape names, and what is behind it. -/
def nextLow? : List Char → Option (Nat × List Char)
  | '\\' :: 'u' :: digits =>
    match readUnit digits with
    | .ok (unit, rest) => if 0xdc00 ≤ unit && unit < 0xe000 then some (unit, rest) else none
    | .error _ => none
  | _ => none

/-- The code point of an escaped unit. A high surrogate takes the low one that
follows it. -/
def joinUnits (unit : Nat) (rest : List Char) : CodePoint × List Char :=
  if 0xd800 ≤ unit && unit < 0xdc00 then
    match nextLow? rest with
    | some (low, behind) =>
      (.char (Char.ofNat (0x10000 + (unit - 0xd800) * 0x400 + (low - 0xdc00))), behind)
    | none => (.ofUnit unit, rest)
  else (.ofUnit unit, rest)

/-- The character that a letter after a backslash stands for. -/
def escaped? (c : Char) : Option Char :=
  if c = Text.doubleQuote || c = '\\' || c = '/' then some c
  else if c = 'b' then some (Char.ofNat 8)
  else if c = 'f' then some (Char.ofNat 12)
  else if c = 'n' then some '\n'
  else if c = 'r' then some '\r'
  else if c = 't' then some '\t'
  else none

/-- The code points of a text up to its closing quote. -/
def readText : Nat → List Char → Except ReadError (CodeText × List Char)
  | 0, _ => .error .malformed
  | _ + 1, [] => .error .malformed
  | fuel + 1, c :: rest => do
    if c = Text.doubleQuote then return ([], rest)
    else if c = '\\' then
      match rest with
      | [] => throw .malformed
      | 'u' :: digits =>
        let (unit, rest) ← readUnit digits
        let (point, rest) := joinUnits unit rest
        let (points, rest) ← readText fuel rest
        return (point :: points, rest)
      | letter :: rest =>
        match escaped? letter with
        | none => throw .malformed
        | some c =>
          let (points, rest) ← readText fuel rest
          return (.char c :: points, rest)
    else if c.toNat < 32 then throw .malformed
    else
      let (points, rest) ← readText fuel rest
      return (.char c :: points, rest)

/-- The minus of a number, if it has one. -/
def minusPart : List Char → List Char × List Char
  | '-' :: rest => (['-'], rest)
  | chars => ([], chars)

/-- The digits of a whole part: a zero alone, or digits that do not start with
one. -/
def wholeDigits : List Char → List Char × List Char
  | '0' :: rest => (['0'], rest)
  | chars => (chars.takeWhile Numeral.isDecimalDigit, chars.dropWhile Numeral.isDecimalDigit)

/-- A fraction, if a digit follows the point. -/
def fractionPart : List Char → List Char × List Char
  | '.' :: rest =>
    let digits := rest.takeWhile Numeral.isDecimalDigit
    if digits.isEmpty then ([], '.' :: rest)
    else ('.' :: digits, rest.dropWhile Numeral.isDecimalDigit)
  | chars => ([], chars)

/-- An exponent, if digits follow its letter and sign. -/
def exponentPart : List Char → List Char × List Char
  | c :: rest =>
    if c = 'e' || c = 'E' then
      let (sign, after) := match rest with
        | '-' :: after => (['-'], after)
        | '+' :: after => (['+'], after)
        | after => ([], after)
      let digits := after.takeWhile Numeral.isDecimalDigit
      if digits.isEmpty then ([], c :: rest)
      else (c :: sign ++ digits, after.dropWhile Numeral.isDecimalDigit)
    else ([], c :: rest)
  | [] => ([], [])

/-- A number at the start of a text. -/
def readNumber (chars : List Char) : Except ReadError (Json CodeText × List Char) := do
  let (sign, unsigned) := minusPart chars
  let (whole, rest) := wholeDigits unsigned
  if whole.isEmpty then throw .malformed
  let (fraction, rest) := fractionPart rest
  let (exponent, rest) := exponentPart rest
  let lexeme := String.ofList (sign ++ whole ++ fraction ++ exponent)
  if fraction.isEmpty && exponent.isEmpty then
    match Numeral.readInteger 10 lexeme with
    | .ok n => return (.integer n, rest)
    | .error e => throw (.numeral e)
  else
    match Numeral.readFloat lexeme with
    | .ok x => return (.float x, rest)
    | .error e => throw (.numeral e)

/-- A word or a number at the start of a text. -/
def readAtom (chars : List Char) : Except ReadError (Json CodeText × List Char) :=
  let words : List (String × Json CodeText) := [("null", .null), ("true", .boolean true),
    ("false", .boolean false), ("NaN", .float .notANumber),
    ("Infinity", .float (.infinite false)), ("-Infinity", .float (.infinite true))]
  let found := words.findSome? fun (word, json) =>
    (afterWord? word.toList chars).map fun rest => (json, rest)
  match found with
  | some result => .ok result
  | none => readNumber chars

mutual
/-- A value at the start of a text. Every call on a part of it has less fuel. -/
def readValue : Nat → List Char → Except ReadError (Json CodeText × List Char)
  | 0, _ => .error .malformed
  | fuel + 1, chars =>
    match chars with
    | [] => .error .malformed
    | '[' :: rest =>
      match skipBlanks rest with
      | ']' :: rest => .ok (.list [], rest)
      | rest => (readItems fuel rest).map fun (items, rest) => (.list items, rest)
    | '{' :: rest =>
      match skipBlanks rest with
      | '}' :: rest => .ok (.object [], rest)
      | rest => (readMembers fuel rest).map fun (members, rest) =>
          (.object (Entries.ofPairs members), rest)
    | c :: rest =>
      if c = Text.doubleQuote then
        (readText fuel rest).map fun (points, rest) => (.text points, rest)
      else readAtom (c :: rest)

/-- The items of a list up to its closing bracket. -/
def readItems : Nat → List Char → Except ReadError (List (Json CodeText) × List Char)
  | 0, _ => .error .malformed
  | fuel + 1, chars => do
    let (item, rest) ← readValue fuel chars
    match skipBlanks rest with
    | ']' :: rest => return ([item], rest)
    | ',' :: rest =>
      let (items, rest) ← readItems fuel (skipBlanks rest)
      return (item :: items, rest)
    | _ => throw .malformed

/-- The members of an object up to its closing brace. -/
def readMembers :
    Nat → List Char → Except ReadError (List (CodeText × Json CodeText) × List Char)
  | 0, _ => .error .malformed
  | fuel + 1, chars => do
    match chars with
    | [] => throw .malformed
    | c :: rest =>
      if c ≠ Text.doubleQuote then throw .malformed
      let (key, rest) ← readText fuel rest
      match skipBlanks rest with
      | ':' :: rest =>
        let (value, rest) ← readValue fuel (skipBlanks rest)
        let member := (key, value)
        match skipBlanks rest with
        | '}' :: rest => return ([member], rest)
        | ',' :: rest =>
          let (members, rest) ← readMembers fuel (skipBlanks rest)
          return (member :: members, rest)
        | _ => throw .malformed
      | _ => throw .malformed
end

/-- The value that a whole text writes, with blanks around it. -/
def read (text : String) : Except ReadError (Json CodeText) := do
  let chars := text.toList
  let (json, rest) ← readValue (chars.length + 1) (skipBlanks chars)
  if (skipBlanks rest).isEmpty then return json else throw .malformed

end SchemaModels.Json
