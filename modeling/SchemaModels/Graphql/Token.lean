/-!
The tokens of the schema language, and the stream in which a lexer gives them.
-/
namespace SchemaModels.Graphql

inductive Punctuator where
  | bang
  | dollar
  | ampersand
  | parenLeft
  | parenRight
  | spread
  | colon
  | equals
  | at
  | bracketLeft
  | bracketRight
  | braceLeft
  | pipe
  | braceRight
  deriving DecidableEq, Repr

namespace Punctuator

/-- How a punctuator is written. -/
def lexeme : Punctuator → String
  | .bang => "!"
  | .dollar => "$"
  | .ampersand => "&"
  | .parenLeft => "("
  | .parenRight => ")"
  | .spread => "..."
  | .colon => ":"
  | .equals => "="
  | .at => "@"
  | .bracketLeft => "["
  | .bracketRight => "]"
  | .braceLeft => "\x7b"
  | .pipe => "|"
  | .braceRight => "\x7d"

/-- The punctuator of one character. -/
def ofChar? (c : Char) : Option Punctuator :=
  if c = '!' then some .bang
  else if c = '$' then some .dollar
  else if c = '&' then some .ampersand
  else if c = '(' then some .parenLeft
  else if c = ')' then some .parenRight
  else if c = ':' then some .colon
  else if c = '=' then some .equals
  else if c = '@' then some .at
  else if c = '[' then some .bracketLeft
  else if c = ']' then some .bracketRight
  else if c = '{' then some .braceLeft
  else if c = '|' then some .pipe
  else if c = '}' then some .braceRight
  else none

end Punctuator

/-- A token. Numbers keep the way they were written, texts do not. -/
inductive Token where
  | punctuator (p : Punctuator)
  | name (value : String)
  | integer (lexeme : String)
  | float (lexeme : String)
  | text (value : String)
  | blockText (value : String)
  deriving DecidableEq, Repr

namespace Token

/-- A token as messages show it: what it is, and its value. -/
def shown : Token → String
  | .punctuator p => "'" ++ p.lexeme ++ "'"
  | .name value => "Name '" ++ value ++ "'"
  | .integer lexeme => "Int '" ++ lexeme ++ "'"
  | .float lexeme => "Float '" ++ lexeme ++ "'"
  | .text value => "String '" ++ value ++ "'"
  | .blockText value => "BlockString '" ++ value ++ "'"

/-- The value of a token other than a punctuator. -/
def value? : Token → Option String
  | .punctuator _ => none
  | .name value => some value
  | .integer lexeme => some lexeme
  | .float lexeme => some lexeme
  | .text value => some value
  | .blockText value => some value

end Token
end SchemaModels.Graphql
