import SchemaModels.Number.Shortest

/-!
The written form of doubles: the shortest digits, positional for the decimal
exponents from -4 to 15 and with an exponent otherwise.
-/
namespace SchemaModels

/-- How doubles are written. -/
structure FloatFormat where
  /-- The smallest decimal exponent that is written positionally. -/
  lowest : Int
  /-- The first decimal exponent that is no longer written positionally. -/
  limit : Int
  infinity : String
  notANumber : String

/-- Plain text: special values in lower case. -/
def FloatFormat.plain : FloatFormat := ⟨-4, 16, "inf", "nan"⟩

/-- Inside an artifact: special values spelled out. -/
def FloatFormat.artifact : FloatFormat := ⟨-4, 16, "Infinity", "NaN"⟩

namespace Decimal

/-- Digits with a point before the last `places` of them, and at least one digit
on each side. -/
def positional (digits : List Char) (scale : Int) : List Char :=
  match scale with
  | .ofNat k => digits ++ List.replicate k '0' ++ ['.', '0']
  | .negSucc k =>
    let places := k + 1
    if places < digits.length then
      digits.take (digits.length - places) ++ '.' :: digits.drop (digits.length - places)
    else
      ['0', '.'] ++ List.replicate (places - digits.length) '0' ++ digits

/-- One digit, the rest after a point, and the exponent with its sign and at
least two digits. -/
def scientific (digits : List Char) (exponent : Int) : List Char :=
  let power := (toString exponent.natAbs).toList
  let mantissa := match digits with
    | [] => ['0']
    | [d] => [d]
    | d :: rest => d :: '.' :: rest
  mantissa ++ ['e', if exponent < 0 then '-' else '+'] ++
    List.replicate (2 - power.length) '0' ++ power

/-- A decimal as text. -/
def text (format : FloatFormat) (d : Decimal) : List Char :=
  let digits := (toString d.digits).toList
  let exponent := d.scale + digits.length - 1
  if format.lowest ≤ exponent ∧ exponent < format.limit then positional digits d.scale
  else scientific digits exponent

end Decimal

namespace Binary64

/-- A double as text. -/
def text (format : FloatFormat) : Binary64 → String
  | .notANumber => format.notANumber
  | .infinite negative => (if negative then "-" else "") ++ format.infinity
  | .finite negative mantissa exponent _ =>
    (if negative then "-" else "") ++
      (if mantissa = 0 then "0.0"
       else String.ofList ((Decimal.shortest mantissa exponent).text format))

end Binary64
end SchemaModels
