/-!
A place in a YAML text, and the classes of characters that the notation
distinguishes.
-/
namespace SchemaModels.Yaml

/-- The rest of a text and where it begins. -/
structure Cursor where
  rest : List Char
  index : Nat
  line : Nat
  column : Nat

/-- A line end of any script. -/
def isBreak (c : Char) : Bool :=
  c == '\n' || c == '\r' || c.toNat == 0x85 || c.toNat == 0x2028 || c.toNat == 0x2029

/-- A character that separates tokens. -/
def isSeparator (c : Char) : Bool := c == ' ' || c == '\t' || isBreak c

/-- A letter, a digit, a hyphen or an underscore. -/
def isWordChar (c : Char) : Bool := c.isAlphanum || c == '-' || c == '_'

/-- A character that a text may hold. -/
def isAllowed (c : Char) : Bool :=
  let n := c.toNat
  n == 9 || n == 10 || n == 13 || (0x20 ≤ n && n ≤ 0x7e) || n == 0x85 ||
    (0xa0 ≤ n && n ≤ 0xfffd) || 0x10000 ≤ n

/-- Whether a text ends here or goes on with a character of a class. -/
def endsOr (p : Char → Bool) : List Char → Bool
  | [] => true
  | c :: _ => p c

/-- Whether a text begins with the mark between documents. -/
def atDocumentMark (mark : Char) : List Char → Bool
  | a :: b :: c :: rest => a == mark && b == mark && c == mark && endsOr isSeparator rest
  | _ => false

def atAnyDocumentMark (chars : List Char) : Bool :=
  atDocumentMark '-' chars || atDocumentMark '.' chars

namespace Cursor

def ofChars (chars : List Char) : Cursor := ⟨chars, 0, 0, 0⟩

/-- One character further. A byte order mark takes no column. -/
def next (cursor : Cursor) : Cursor :=
  match cursor.rest with
  | [] => cursor
  | c :: rest =>
    if isBreak c && !(c == '\r' && rest.head? == some '\n') then
      ⟨rest, cursor.index + 1, cursor.line + 1, 0⟩
    else if c.toNat == 0xfeff then ⟨rest, cursor.index + 1, cursor.line, cursor.column⟩
    else ⟨rest, cursor.index + 1, cursor.line, cursor.column + 1⟩

/-- Some characters further. -/
def forward (cursor : Cursor) : Nat → Cursor
  | 0 => cursor
  | n + 1 => cursor.next.forward n

/-- Past the characters of a class. -/
def skipWhile (cursor : Cursor) (p : Char → Bool) : Cursor :=
  cursor.forward (cursor.rest.takeWhile p).length

/-- Past the spaces up to a column. -/
def skipIndent (cursor : Cursor) (indent : Nat) : Cursor :=
  cursor.forward (min (indent - cursor.column) (cursor.rest.takeWhile (· == ' ')).length)

/-- Takes a line end, as the character that it counts as. -/
def takeBreak? (cursor : Cursor) : Option (Char × Cursor) :=
  match cursor.rest with
  | '\r' :: '\n' :: _ => some ('\n', cursor.forward 2)
  | c :: _ =>
    if isBreak c then
      some (if c.toNat == 0x2028 || c.toNat == 0x2029 then c else '\n', cursor.next)
    else none
  | [] => none

/-- Past spaces and a comment, up to the end of the line. -/
def skipComment (cursor : Cursor) : Cursor :=
  let cursor := cursor.skipWhile (· == ' ')
  if cursor.rest.head? == some '#' then cursor.skipWhile (!isBreak ·) else cursor

end Cursor
end SchemaModels.Yaml
