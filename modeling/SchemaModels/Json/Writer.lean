import SchemaModels.Json.Basic

/-!
The compact text of a JSON value: no blanks, and only ASCII characters. All
other characters are escaped by their UTF-16 units.
-/
namespace SchemaModels.Json

/-- The UTF-16 units of a character. -/
def units (c : Char) : List Nat :=
  let n := c.toNat
  if n < 0x10000 then [n]
  else [0xd800 + (n - 0x10000) / 0x400, 0xdc00 + (n - 0x10000) % 0x400]

/-- The escape of one UTF-16 unit. -/
def unitEscape (unit : Nat) : List Char := ['\\', 'u'] ++ Text.hexDigits 4 unit

/-- A character inside a written text. -/
def writeChar (c : Char) : List Char :=
  if c = Text.doubleQuote || c = '\\' then ['\\', c]
  else if c = '\n' then ['\\', 'n']
  else if c = '\r' then ['\\', 'r']
  else if c = '\t' then ['\\', 't']
  else if c.toNat = 8 then ['\\', 'b']
  else if c.toNat = 12 then ['\\', 'f']
  else if 32 ≤ c.toNat && c.toNat < 127 then [c]
  else (units c).flatMap unitEscape

/-- A code point inside a written text. -/
def writePoint : CodePoint → List Char
  | .char c => writeChar c
  | .surrogate s => unitEscape s.code

/-- A text between double quotes. -/
def writeText (text : CodeText) : List Char :=
  Text.doubleQuote :: text.flatMap writePoint ++ [Text.doubleQuote]

mutual
/-- The text of a value. -/
def write : Json CodeText → List Char
  | .null => "null".toList
  | .boolean true => "true".toList
  | .boolean false => "false".toList
  | .integer n => (toString n).toList
  | .float x => (x.text .artifact).toList
  | .text s => writeText s
  | .list items => '[' :: writeItems items ++ [']']
  | .object members => '{' :: writeMembers members ++ ['}']

def writeItems : List (Json CodeText) → List Char
  | [] => []
  | [item] => item.write
  | item :: rest => item.write ++ ',' :: writeItems rest

def writeMembers : List (CodeText × Json CodeText) → List Char
  | [] => []
  | [(key, value)] => writeText key ++ ':' :: value.write
  | (key, value) :: rest => writeText key ++ ':' :: value.write ++ ',' :: writeMembers rest
end

/-- The text of a value as a string. -/
def render (json : Json CodeText) : String := String.ofList json.write

end SchemaModels.Json
