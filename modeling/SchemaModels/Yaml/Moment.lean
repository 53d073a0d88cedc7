import SchemaModels.Yaml.Error
import SchemaModels.Yaml.Resolve

/-!
Dates and times of the calendar, as they are shown in messages.
-/
namespace SchemaModels.Yaml

/-- The number of days in a month. -/
def daysIn (year month : Nat) : Nat :=
  if month = 2 then
    if year % 4 = 0 && (year % 100 != 0 || year % 400 = 0) then 29 else 28
  else if [4, 6, 9, 11].contains month then 30
  else 31

/-- Checks a date. -/
def checkDate (year month day : Nat) : Except MomentFault Unit := do
  if year = 0 then throw (.year year)
  if month = 0 || 12 < month then throw .month
  if day = 0 || daysIn year month < day then throw .day

/-- Checks a time. -/
def checkTime (hour minute second : Nat) : Except MomentFault Unit := do
  if 23 < hour then throw .hour
  if 59 < minute then throw .minute
  if 59 < second then throw .second

/-- The number of seconds in a day. -/
def daySeconds : Nat := 86400

/-- An offset, given in seconds, as whole days and seconds, and whether it is
less than a day. -/
def splitOffset (negative : Bool) (seconds : Nat) : Int × Nat :=
  let total : Int := if negative then -(seconds : Int) else seconds
  (Int.fdiv total daySeconds, (Int.fmod total daySeconds).toNat)

/-- An offset in words. -/
def offsetLiteral (negative : Bool) (seconds : Nat) : String :=
  if seconds = 0 then "datetime.timezone.utc"
  else
    let (days, rest) := splitOffset negative seconds
    "datetime.timezone(" ++ offsetText days rest ++ ")"

/-- The offset of a time from universal time, in words. -/
def offsetOf (m : MomentText) : Except MomentFault (Option String) :=
  match m.offset with
  | some (negative, hours, minutes) =>
    let seconds := Text.decimalNumber hours * 3600 + Text.decimalNumber minutes * 60
    let (days, rest) := splitOffset negative seconds
    if daySeconds ≤ seconds then .error (.offset days rest)
    else .ok (some (offsetLiteral negative seconds))
  | none => .ok (if m.universal then some "datetime.timezone.utc" else none)

/-- The number of millionths of a second that some digits write. -/
def millionths (digits : List Char) : Nat :=
  let kept := digits.take 6
  Text.decimalNumber (kept ++ List.replicate (6 - kept.length) '0')

/-- A date or time in words. -/
def momentLiteral (m : MomentText) : Except MomentFault String := do
  let year := Text.decimalNumber m.year
  let month := Text.decimalNumber m.month
  let day := Text.decimalNumber m.day
  match m.time with
  | none =>
    checkDate year month day
    return s!"datetime.date({year}, {month}, {day})"
  | some (hourText, minuteText, secondText, fraction) =>
    let offset ← offsetOf m
    let hour := Text.decimalNumber hourText
    let minute := Text.decimalNumber minuteText
    let second := Text.decimalNumber secondText
    let micro := millionths fraction
    checkDate year month day
    checkTime hour minute second
    let parts := [year, month, day, hour, minute] ++
      (if micro != 0 then [second, micro] else if second != 0 then [second] else [])
    let zone := match offset with
      | some text => ["tzinfo=" ++ text]
      | none => []
    return "datetime.datetime(" ++ ", ".intercalate (parts.map toString ++ zone) ++ ")"

end SchemaModels.Yaml
