import SchemaModels.Graphql.Token
import SchemaModels.Text.Digit

/-!
What is wrong with a text that is no document, and the words for it.
-/
namespace SchemaModels.Graphql

/-- What a parser asks for when nothing else may follow. -/
inductive Wanted where
  | punctuator (p : Punctuator)
  | name
  | keyword (word : String)
  | finish
  deriving DecidableEq, Repr

/-- The cause of a failure. A token that was found is absent at the end of the
text, and so is a character. -/
inductive SyntaxError where
  | strayCharacter (c : Char)
  | straySingleQuote
  | twoPoints
  | missingWholePart (fraction : String)
  | digitAfterZero (digit : Char)
  | missingDigit (found : Option Char)
  | unterminatedText
  | badEscape (shown : String)
  | badUnicodeEscape (shown : String)
  | expected (wanted : Wanted) (found : Option Token)
  | unexpected (found : Option Token)
  | variableInConstant (name : String)
  | describedShorthand
  | describedOther
  | reservedEnumValue (found : Token)
  | nestedTooDeeply
  deriving DecidableEq, Repr

/-- A character as messages show it, or the end of the text. -/
def shownChar : Option Char → String
  | none => "<EOF>"
  | some c =>
    if 32 ≤ c.toNat && c.toNat < 127 then "'" ++ String.singleton c ++ "'"
    else
      let width := if c.toNat < 0x10000 then 4 else if c.toNat < 0x100000 then 5 else 6
      "U+" ++ String.ofList ((Text.hexDigits width c.toNat).map Char.toUpper)

/-- A token as messages show it, or the end of the text. -/
def shownToken : Option Token → String
  | none => "<EOF>"
  | some token => token.shown

def Wanted.shown : Wanted → String
  | .punctuator p => "'" ++ p.lexeme ++ "'"
  | .name => "Name"
  | .keyword word => "'" ++ word ++ "'"
  | .finish => "<EOF>"

namespace SyntaxError

/-- The words for what is wrong. -/
def reason : SyntaxError → String
  | .strayCharacter c => "Unexpected character: " ++ shownChar (some c) ++ "."
  | .straySingleQuote =>
    "Unexpected single quote character ('), did you mean to use a double quote (\x22)?"
  | .twoPoints => "Unexpected '..', did you mean '...'?"
  | .missingWholePart fraction =>
    "Invalid number, expected digit before '.', did you mean '0." ++ fraction ++ "'?"
  | .digitAfterZero digit =>
    "Invalid number, unexpected digit after 0: " ++ shownChar (some digit) ++ "."
  | .missingDigit found => "Invalid number, expected digit but got: " ++ shownChar found ++ "."
  | .unterminatedText => "Unterminated string."
  | .badEscape shown => "Invalid character escape sequence: '" ++ shown ++ "'."
  | .badUnicodeEscape shown => "Invalid Unicode escape sequence: '" ++ shown ++ "'."
  | .expected wanted found => "Expected " ++ wanted.shown ++ ", found " ++ shownToken found ++ "."
  | .unexpected found => "Unexpected " ++ shownToken found ++ "."
  | .variableInConstant name => "Unexpected variable '$" ++ name ++ "' in constant value."
  | .describedShorthand =>
    "Unexpected description, descriptions are not supported on shorthand queries."
  | .describedOther => "Unexpected description, only GraphQL definitions support descriptions."
  | .reservedEnumValue found =>
    found.shown ++ " is reserved and cannot be used for an enum value."
  | .nestedTooDeeply => "Document is nested too deeply. Parsing aborted."

def message (error : SyntaxError) : String := "Syntax Error: " ++ error.reason

end SyntaxError

/-- The tokens of a text: all of them, or those before the first place that
begins no token. What is wrong there shows only when the place is reached. -/
inductive Tokens where
  | finished
  | broken (error : SyntaxError)
  | next (token : Token) (rest : Tokens)
  deriving Repr

namespace Tokens

/-- The number of tokens. -/
def size : Tokens → Nat
  | .finished => 0
  | .broken _ => 0
  | .next _ rest => rest.size + 1

end Tokens
end SchemaModels.Graphql
