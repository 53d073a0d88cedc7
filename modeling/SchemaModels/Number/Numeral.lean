import SchemaModels.Number.Binary64
import SchemaModels.Text.Blank
import SchemaModels.Text.Literal

/-!
Numbers written freely: blanks around the number, a sign, digits of any script
and single underscores between digits. An integer in base ten may have no more
than 4300 digits.
-/
namespace SchemaModels

/-- Why a text is no number. -/
inductive NumeralError where
  | tooManyDigits (count : Nat)
  | notInteger (base : Nat) (text : String)
  | notFloat (text : String)
  deriving DecidableEq, Repr

/-- The most digits that an integer in base ten may have. -/
def maxIntegerDigits : Nat := 4300

/-- The message of an error. A text that is no integer is quoted up to 200
characters. -/
def NumeralError.message : NumeralError → String
  | .tooManyDigits count =>
    s!"Exceeds the limit ({maxIntegerDigits} digits) for integer string conversion: value has {count} digits; use sys.set_int_max_str_digits() to increase the limit"
  | .notInteger base text =>
    s!"invalid literal for int() with base {base}: " ++
      String.ofList ((Text.literal text).toList.take 200)
  | .notFloat text => "could not convert string to float: " ++ Text.literal text

namespace Numeral

/-- A text with the digits and blanks of all scripts replaced by those of ASCII.
A text that is ASCII already stays as it is. -/
def toAscii (text : List Char) : List Char :=
  if text.all (·.toNat < 128) then text
  else text.map fun c =>
    if c.toNat < 128 then c
    else if Text.isBlank c then ' '
    else match Text.decimalValue? c with
      | some n => Text.hexDigit n
      | none => '?'

/-- Splits a sign off. -/
def splitSign : List Char → Bool × List Char
  | '-' :: rest => (true, rest)
  | '+' :: rest => (false, rest)
  | text => (false, text)

/-- The value of a digit in a base. -/
def digitIn? (base : Nat) (c : Char) : Option Nat :=
  let value :=
    if '0' ≤ c && c ≤ '9' then some (c.toNat - 48)
    else if 'a' ≤ c && c ≤ 'z' then some (c.toNat - 87)
    else if 'A' ≤ c && c ≤ 'Z' then some (c.toNat - 55)
    else none
  value.filter (· < base)

/-- Drops the mark that may stand before digits in base 2, 8 or 16, and one
underscore after it. -/
def dropBaseMark (base : Nat) : List Char → List Char
  | '0' :: mark :: rest =>
    let m := mark.toLower
    if (base = 2 && m = 'b') || (base = 8 && m = 'o') || (base = 16 && m = 'x') then
      match rest with
      | '_' :: digits => digits
      | digits => digits
    else '0' :: mark :: rest
  | text => text

/-- Whether underscores stand only between digits. -/
def underscoresBetween : List Char → Bool
  | [] => true
  | ['_'] => false
  | '_' :: '_' :: _ => false
  | _ :: rest => underscoresBetween rest

/-- The integer that a text writes in a base. -/
def readInteger (base : Nat) (text : String) : Except NumeralError Int :=
  let fail := Except.error (NumeralError.notInteger base text)
  let (negative, unsigned) := splitSign ((toAscii text.toList).dropWhile Text.isAsciiBlank)
  let body := dropBaseMark base unsigned
  let isDigit c := (digitIn? base c).isSome
  let run := body.takeWhile fun c => isDigit c || c == '_'
  let after := body.dropWhile fun c => isDigit c || c == '_'
  let digits := run.filter isDigit
  if run.head? == some '_' || !underscoresBetween run then fail
  else if maxIntegerDigits < digits.length && !(base == 2 || base == 8 || base == 16) then
    .error (.tooManyDigits digits.length)
  else if digits.isEmpty || !after.all Text.isAsciiBlank then fail
  else
    let n := digits.foldl (fun n c => base * n + (digitIn? base c).getD 0) 0
    .ok (if negative then -(n : Int) else n)

def isDecimalDigit (c : Char) : Bool := '0' ≤ c && c ≤ '9'

/-- The exponent that follows the digits of a number, none being zero. -/
def readExponent : List Char → Option Int
  | [] => some 0
  | c :: rest =>
    if c = 'e' || c = 'E' then
      let (negative, digits) := splitSign rest
      if !digits.isEmpty && digits.all isDecimalDigit then
        let n := Text.decimalNumber digits
        some (if negative then -(n : Int) else n)
      else none
    else none

/-- An unsigned decimal with an optional fraction and exponent: its digits and
its scale. One of whole part and fraction may be empty. -/
def readDecimal (text : List Char) : Option (Nat × Int) := do
  let whole := text.takeWhile isDecimalDigit
  let rest := text.dropWhile isDecimalDigit
  let (fraction, rest) := match rest with
    | '.' :: rest => (rest.takeWhile isDecimalDigit, rest.dropWhile isDecimalDigit)
    | rest => ([], rest)
  if whole.isEmpty && fraction.isEmpty then none
  else
    let exponent ← readExponent rest
    some (Text.decimalNumber (whole ++ fraction), exponent - fraction.length)

/-- A signed decimal or one of the names of infinity and of no number, in any
case. -/
def readFloat? (text : List Char) : Option Binary64 :=
  let (negative, unsigned) := splitSign text
  let word := String.ofList (unsigned.map Char.toLower)
  if word == "inf" || word == "infinity" then some (.infinite negative)
  else if word == "nan" then some .notANumber
  else (readDecimal unsigned).map fun (digits, scale) => .ofDecimal negative digits scale

/-- Whether each underscore stands between two decimal digits. -/
def digitsAroundUnderscores : List Char → Bool
  | [] => true
  | ['_'] => false
  | a :: b :: rest =>
    (b != '_' || isDecimalDigit a) && (a != '_' || isDecimalDigit b) &&
      digitsAroundUnderscores (b :: rest)
  | _ => true

/-- The double that a text writes. -/
def readFloat (text : String) : Except NumeralError Binary64 :=
  let body := Text.trimEnds Text.isAsciiBlank (toAscii text.toList)
  let value :=
    if body.contains '_' then
      if body.head? != some '_' && digitsAroundUnderscores body then
        readFloat? (body.filter (· != '_'))
      else none
    else readFloat? body
  match value with
  | some x => .ok x
  | none => .error (.notFloat text)

end Numeral
end SchemaModels
