import SchemaModels.Json.Basic
import SchemaModels.Model.Fault
import SchemaModels.Number.Numeral

/-!
Lenient checks of single values: a number may be given by its text, a truth
value by a word or a number, and an integer by a double without a fraction.
-/
namespace SchemaModels.Lenient

open Checked (fail)

def text : Json CodeText → Checked CodeText
  | .text s => .valid s
  | _ => fail .textType

def optionalText : Json CodeText → Checked (Option CodeText)
  | .null => .valid none
  | json => (text json).map some

def trueWords : List String := ["1", "on", "t", "true", "y", "yes"]

def falseWords : List String := ["0", "off", "f", "false", "n", "no"]

/-- What a text without surrogates stands for in other words. -/
def spelled {α : Type} (s : CodeText) (read : String → Checked α) : Checked α :=
  match s.string? with
  | some word => read word
  | none => fail .textEncoding

/-- The truth value of a word. -/
def booleanOfText (s : String) : Checked Bool :=
  let word := String.ofList (s.toList.map Char.toLower)
  if trueWords.contains word then .valid true
  else if falseWords.contains word then .valid false
  else fail .booleanParsing

def boolean : Json CodeText → Checked Bool
  | .boolean b => .valid b
  | .integer n =>
    if n = 0 then .valid false else if n = 1 then .valid true else fail .booleanParsing
  | .float x =>
    match x.toInt? with
    | some 0 => .valid false
    | some 1 => .valid true
    | _ => fail .booleanType
  | .text s => spelled s booleanOfText
  | _ => fail .booleanType

/-- The integer of a text: a sign, digits with single underscores between them,
and after a point nothing but zeros. -/
def integerOfText? (s : String) : Option Int :=
  let (negative, unsigned) := Numeral.splitSign (Text.trimEnds Text.isSpace s.toList)
  let isBody (c : Char) : Bool := Numeral.isDecimalDigit c || c == '_'
  let whole := unsigned.takeWhile isBody
  let digits := whole.filter Numeral.isDecimalDigit
  let zeros := match unsigned.dropWhile isBody with
    | [] => true
    | c :: fraction => c == '.' && !fraction.isEmpty && fraction.all (· == '0')
  if digits.isEmpty || whole.head? == some '_' || !Numeral.underscoresBetween whole || !zeros then
    none
  else
    let n := Text.decimalNumber digits
    some (if negative then -(n : Int) else n)

def integerOfText (s : String) : Checked Int :=
  if maxIntegerDigits < s.length then fail .integerSize
  else match integerOfText? s with
    | some n => .valid n
    | none => fail .integerParsing

def integer : Json CodeText → Checked Int
  | .integer n => .valid n
  | .boolean b => .valid (if b then 1 else 0)
  | .float x =>
    if !x.isFinite then fail .finiteNumber
    else match x.toInt? with
      | none => fail .integerFromFloat
      | some n => if n.natAbs < Nat.pow 2 63 then .valid n else fail .integerSize
  | .text s => spelled s integerOfText
  | _ => fail .integerType

/-- The double of a text; underscores may stand inside it, but not two in a row. -/
def floatOfText? (s : String) : Option Binary64 :=
  let body := Text.trimEnds Text.isSpace s.toList
  match Numeral.readFloat? body with
  | some x => some x
  | none =>
    if body.contains '_' && body.head? != some '_' && Numeral.underscoresBetween body then
      Numeral.readFloat? (body.filter (· != '_'))
    else none

def floatOfText (s : String) : Checked Binary64 :=
  match floatOfText? s with
  | some x => .valid x
  | none => fail .floatParsing

def float : Json CodeText → Checked Binary64
  | .float x => .valid x
  | .integer n => let x := Binary64.ofInt n; if x.isFinite then .valid x else fail .floatType
  | .boolean b => .valid (Binary64.ofInt (if b then 1 else 0))
  | .text s => spelled s floatOfText
  | _ => fail .floatType

end SchemaModels.Lenient
