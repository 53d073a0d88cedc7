import SchemaModels.Text.Digit
import SchemaModels.Text.Printable

/-!
A text as a quoted literal on one line, for messages. The quotes are single
unless the text holds a single quote and no double one.
-/
namespace SchemaModels.Text

def singleQuote : Char := '\x27'

def doubleQuote : Char := '\x22'

/-- The quote around a literal. -/
def literalQuote (text : List Char) : Char :=
  if text.contains singleQuote && !text.contains doubleQuote then doubleQuote else singleQuote

/-- A character inside a literal. The quote and the backslash are escaped, three
line characters have letters, and what is not shown is written by its code. -/
def literalChar (quote c : Char) : List Char :=
  if c = quote || c = '\\' then ['\\', c]
  else if c = '\n' then ['\\', 'n']
  else if c = '\r' then ['\\', 'r']
  else if c = '\t' then ['\\', 't']
  else if isPrintable c then [c]
  else
    let n := c.toNat
    if n < 0x100 then ['\\', 'x'] ++ hexDigits 2 n
    else if n < 0x10000 then ['\\', 'u'] ++ hexDigits 4 n
    else ['\\', 'U'] ++ hexDigits 8 n

/-- The literal of a text. -/
def literal (text : String) : String :=
  let chars := text.toList
  let quote := literalQuote chars
  String.ofList (quote :: chars.flatMap (literalChar quote) ++ [quote])

end SchemaModels.Text
