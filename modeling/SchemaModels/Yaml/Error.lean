import SchemaModels.Number.Numeral

/-!
Why a YAML text gives no data. Whatever breaks the rules of the notation is one
failure; scalars that have the form of a number or a date but no value are
others, and readers may fail in ways of their own.
-/
namespace SchemaModels.Yaml

/-- A part of a date or time that is out of range. -/
inductive MomentFault where
  | year (year : Nat)
  | month
  | day
  | hour
  | minute
  | second
  /-- The offset from universal time, as whole days and seconds. -/
  | offset (days : Int) (seconds : Nat)
  deriving DecidableEq, Repr

inductive Error where
  | malformed
  | numeral (error : NumeralError)
  | codePoint
  | hugeCodePoint
  | notBoolean (word : String)
  | emptyNumber
  | notMoment
  | moment (fault : MomentFault)
  /-- A place of a number in base sixty counts for more than a double can hold. -/
  | hugePlace
  /-- A mapping stands for a date or time. -/
  | momentOfMapping
  /-- Any other failure of a reader, by its name and its words. -/
  | other (name message : String)
  deriving DecidableEq, Repr

/-- An offset in words. -/
def offsetText (days : Int) (seconds : Nat) : String :=
  let parts := (if days = 0 then [] else [s!"days={days}"]) ++
    (if seconds = 0 then [] else [s!"seconds={seconds}"])
  "datetime.timedelta(" ++ ", ".intercalate parts ++ ")"

/-- The words for a part that is out of range. -/
def MomentFault.message : MomentFault → String
  | .year y => s!"year {y} is out of range"
  | .month => "month must be in 1..12"
  | .day => "day is out of range for month"
  | .hour => "hour must be in 0..23"
  | .minute => "minute must be in 0..59"
  | .second => "second must be in 0..59"
  | .offset days seconds =>
    "offset must be a timedelta strictly between -timedelta(hours=24) and timedelta(hours=24), not "
      ++ offsetText days seconds ++ "."

/-- The words for an error other than a malformed text. -/
def Error.message : Error → String
  | .malformed => ""
  | .numeral error => error.message
  | .codePoint => "chr() arg not in range(0x110000)"
  | .hugeCodePoint => "Python int too large to convert to C int"
  | .notBoolean word => Text.literal word
  | .emptyNumber => "string index out of range"
  | .notMoment => ""
  | .moment fault => fault.message
  | .hugePlace => "int too large to convert to float"
  | .momentOfMapping => "expected string or bytes-like object, got 'list'"
  | .other _ message => message

end SchemaModels.Yaml
