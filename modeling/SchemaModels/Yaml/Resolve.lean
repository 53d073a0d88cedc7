import SchemaModels.Yaml.Cursor
import SchemaModels.Number.Numeral

/-!
What a plain scalar is by its form: a number, a truth value, a date or time, one
of the marks for null, merging and default values, or else a text.
-/
namespace SchemaModels.Yaml

/-- The tags of the data that scalars and collections stand for. -/
inductive Tag where
  | null
  | boolean
  | integer
  | float
  | moment
  | text
  | binary
  | sequence
  | mapping
  | set
  | orderedMapping
  | pairs
  /-- The key that merges other mappings into one. -/
  | merge
  /-- The key for the value of a mapping that stands for a scalar. -/
  | default
  | unknown
  deriving DecidableEq, Repr

namespace Tag

/-- Whether a tag is one of a collection. -/
def isCollection : Tag → Bool
  | .sequence | .mapping | .set | .orderedMapping | .pairs => true
  | _ => false

/-- What the standard tags have in common. -/
def standard : String := "tag:yaml.org,2002:"

/-- The tag of a full name. -/
def ofName (name : String) : Tag :=
  let table : List (String × Tag) := [("null", .null), ("bool", .boolean), ("int", .integer),
    ("float", .float), ("timestamp", .moment), ("str", .text), ("binary", .binary),
    ("seq", .sequence), ("map", .mapping), ("set", .set), ("omap", .orderedMapping),
    ("pairs", .pairs), ("merge", .merge), ("value", .default)]
  ((table.find? fun entry => standard ++ entry.1 == name).map (·.2)).getD .unknown

end Tag

/-- Whether all characters are of a class, and there is one at least. -/
def someOf (p : Char → Bool) (chars : List Char) : Bool := !chars.isEmpty && chars.all p

/-- The text without a sign in front. -/
def dropSign : List Char → List Char
  | '-' :: rest => rest
  | '+' :: rest => rest
  | chars => chars

def isDigit (c : Char) : Bool := Numeral.isDecimalDigit c

def isDigitOrGap (c : Char) : Bool := isDigit c || c == '_'

/-- Parts of a text between colons. -/
def colonParts : List Char → List (List Char)
  | [] => [[]]
  | c :: rest =>
    if c = ':' then [] :: colonParts rest
    else
      match colonParts rest with
      | part :: parts => (c :: part) :: parts
      | [] => [[c]]

/-- A part that counts sixtieths: one digit, or two of which the first is below
six. -/
def isSixtieth : List Char → Bool
  | [a] => isDigit a
  | [a, b] => '0' ≤ a && a ≤ '5' && isDigit b
  | _ => false

/-- Digits with gaps that begin with a digit of a class. -/
def isGapped (first : Char → Bool) : List Char → Bool
  | [] => false
  | c :: rest => first c && rest.all isDigitOrGap

def isNonzeroDigit (c : Char) : Bool := '1' ≤ c && c ≤ '9'

/-- An integer in base sixty: a number, and one part for each place after it. -/
def isSixtyBased (first : Char → Bool) (chars : List Char) : Bool :=
  match colonParts chars with
  | whole :: place :: places => isGapped first whole && (place :: places).all isSixtieth
  | _ => false

/-- The form of an integer. -/
def isInteger (chars : List Char) : Bool :=
  let unsigned := dropSign chars
  let based := match unsigned with
    | '0' :: 'b' :: rest => someOf (fun c => c == '0' || c == '1' || c == '_') rest
    | '0' :: 'x' :: rest => someOf (fun c => (Text.hexValue? c).isSome || c == '_') rest
    | '0' :: rest => rest.all fun c => ('0' ≤ c && c ≤ '7') || c == '_'
    | _ => false
  based || isGapped isNonzeroDigit unsigned || isSixtyBased isNonzeroDigit unsigned

/-- The form of an exponent, which has to have a sign, or nothing. -/
def isExponent : List Char → Bool
  | [] => true
  | e :: sign :: digits =>
    (e == 'e' || e == 'E') && (sign == '-' || sign == '+') && someOf isDigit digits
  | _ => false

/-- The form of a fraction with an exponent. -/
def isFraction (chars : List Char) : Bool := isExponent (chars.dropWhile isDigitOrGap)

/-- The form of a number with a fraction. -/
def isFloat (chars : List Char) : Bool :=
  let unsigned := dropSign chars
  let whole := unsigned.takeWhile fun c => isDigitOrGap c || c == ':'
  let infinities : List (List Char) := [".inf".toList, ".Inf".toList, ".INF".toList]
  let decimal := match unsigned.dropWhile fun c => isDigitOrGap c || c == ':' with
    | '.' :: rest =>
      (isGapped isDigit whole && isFraction rest) ||
        (isSixtyBased isDigit whole && rest.all isDigitOrGap)
    | _ => false
  let bare := match chars with
    | '.' :: c :: rest => isDigit c && isFraction (c :: rest)
    | _ => false
  decimal || bare || infinities.contains unsigned ||
    [".nan".toList, ".NaN".toList, ".NAN".toList].contains chars

/-- A date and perhaps a time, as they are written. -/
structure MomentText where
  year : List Char
  month : List Char
  day : List Char
  /-- Hour, minute, second and the digits of a fraction. -/
  time : Option (List Char × List Char × List Char × List Char)
  /-- An offset: whether it is negative, its hours and its minutes. -/
  offset : Option (Bool × List Char × List Char)
  universal : Bool

/-- Takes digits from the front, at least and at most as many as given. -/
def digits? (least most : Nat) (chars : List Char) : Option (List Char × List Char) :=
  let digits := (chars.take most).takeWhile isDigit
  if digits.length < least then none else some (digits, chars.drop digits.length)

/-- Takes a given character from the front. -/
def expect? (c : Char) : List Char → Option (List Char)
  | d :: rest => if c = d then some rest else none
  | [] => none

def isGap (c : Char) : Bool := c == ' ' || c == '\t'

/-- The offset at the end of a time: none, the mark for universal time, or hours
and perhaps minutes. -/
def offset? (chars : List Char) : Option (Option (Bool × List Char × List Char) × Bool) :=
  match chars with
  | [] => some (none, false)
  | _ =>
    match chars.dropWhile isGap with
    | ['Z'] => some (none, true)
    | sign :: rest => do
      if sign != '-' && sign != '+' then none
      let (hours, rest) ← digits? 1 2 rest
      match rest with
      | [] => some (some (sign == '-', hours, []), false)
      | ':' :: rest =>
        let (minutes, rest) ← digits? 2 2 rest
        if rest.isEmpty then some (some (sign == '-', hours, minutes), false) else none
      | _ => none
    | [] => none

/-- The form of a date, or of a date with a time. -/
def moment? (chars : List Char) : Option MomentText := do
  let (year, rest) ← digits? 4 4 chars
  let (month, rest) ← digits? 1 2 (← expect? '-' rest)
  let (day, rest) ← digits? 1 2 (← expect? '-' rest)
  match rest with
  | [] => some ⟨year, month, day, none, none, false⟩
  | c :: after =>
    let rest ← if c == 'T' || c == 't' then some after
      else if isGap c then some (rest.dropWhile isGap) else none
    let (hour, rest) ← digits? 1 2 rest
    let (minute, rest) ← digits? 2 2 (← expect? ':' rest)
    let (second, rest) ← digits? 2 2 (← expect? ':' rest)
    let (fraction, rest) := match rest with
      | '.' :: rest => (rest.takeWhile isDigit, rest.dropWhile isDigit)
      | rest => ([], rest)
    let (offset, universal) ← offset? rest
    some ⟨year, month, day, some (hour, minute, second, fraction), offset, universal⟩

/-- The form of a date or time that needs no tag: a date alone has two digits
for month and day. -/
def isMoment (chars : List Char) : Bool :=
  match moment? chars with
  | none => false
  | some m => m.time.isSome || (m.month.length == 2 && m.day.length == 2)

/-- The words for truth values. -/
def truthWords : List String := ["yes", "Yes", "YES", "no", "No", "NO", "true", "True", "TRUE",
  "false", "False", "FALSE", "on", "On", "ON", "off", "Off", "OFF"]

/-- The words for null, and the empty text. -/
def nullWords : List String := ["~", "null", "Null", "NULL", ""]

/-- What the form of a text says. A line feed at the end does not change it. -/
def Tag.ofForm (text : String) : Tag :=
  let chars := match text.toList.reverse with
    | '\n' :: rest => rest.reverse
    | _ => text.toList
  let form := String.ofList chars
  if truthWords.contains form then .boolean
  else if isFloat chars then .float
  else if isInteger chars then .integer
  else if form == "<<" then .merge
  else if nullWords.contains form && (form != "" || text == "") then .null
  else if isMoment chars then .moment
  else if form == "=" then .default
  else if form == "!" || form == "&" || form == "*" then .unknown
  else .text

end SchemaModels.Yaml
