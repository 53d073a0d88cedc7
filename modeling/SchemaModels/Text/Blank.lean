/-!
White space, in the three extents that readers of numbers and of settings use, and line
ends: a line feed, a carriage return, or both in this order.
-/
namespace SchemaModels.Text

/-- The blanks of ASCII: space, tab, line feed, vertical tab, form feed and
carriage return. -/
def isAsciiBlank (c : Char) : Bool :=
  c == ' ' || (9 ≤ c.toNat && c.toNat ≤ 13)

/-- The characters with the Unicode property of white space. -/
def isSpace (c : Char) : Bool :=
  let n := c.toNat
  isAsciiBlank c || n == 0x85 || n == 0xa0 || n == 0x1680 || (0x2000 ≤ n && n ≤ 0x200a) ||
    n == 0x2028 || n == 0x2029 || n == 0x202f || n == 0x205f || n == 0x3000

/-- White space together with the four information separators of ASCII. -/
def isBlank (c : Char) : Bool :=
  isSpace c || (0x1c ≤ c.toNat && c.toNat ≤ 0x1f)

/-- A list without the items of a class at either end. -/
def trimEnds {α : Type} (skip : α → Bool) (items : List α) : List α :=
  ((items.dropWhile skip).reverse.dropWhile skip).reverse

/-- The text with every line end written as one line feed. -/
def unifyNewlines : List Char → List Char
  | [] => []
  | '\r' :: '\n' :: rest => '\n' :: unifyNewlines rest
  | '\r' :: rest => '\n' :: unifyNewlines rest
  | c :: rest => c :: unifyNewlines rest

end SchemaModels.Text
