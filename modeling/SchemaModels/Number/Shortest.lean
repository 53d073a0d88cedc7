import SchemaModels.Number.Binary64

/-!
The shortest decimal of a double: the fewest digits that read back as the same
number, and of those the digits nearest to it.
-/
namespace SchemaModels

/-- A positive decimal: `digits * 10 ^ scale`, its digits written without the
zeros at the end. -/
structure Decimal where
  digits : Nat
  scale : Int
  deriving DecidableEq, Repr

namespace Decimal

/-- A positive rational as numerator and denominator. -/
abbrev Ratio := Nat × Nat

/-- Whether `digits * 10 ^ scale` is below a rational. -/
def lt (digits : Nat) (scale : Int) (bound : Ratio) : Bool :=
  match scale with
  | .ofNat k => decide (digits * Nat.pow 10 k * bound.2 < bound.1)
  | .negSucc k => decide (digits * bound.2 < bound.1 * Nat.pow 10 (k + 1))

/-- Whether `digits * 10 ^ scale` equals a rational. -/
def eq (digits : Nat) (scale : Int) (bound : Ratio) : Bool :=
  match scale with
  | .ofNat k => digits * Nat.pow 10 k * bound.2 == bound.1
  | .negSucc k => digits * bound.2 == bound.1 * Nat.pow 10 (k + 1)

/-- The largest natural `n` with `n * 10 ^ scale` at most a rational. -/
def floor (scale : Int) (value : Ratio) : Nat :=
  match scale with
  | .ofNat k => value.1 / (value.2 * Nat.pow 10 k)
  | .negSucc k => value.1 * Nat.pow 10 (k + 1) / value.2

/-- `mantissa * 2 ^ exponent` as a quotient. -/
def binaryRatio (mantissa : Nat) : Int → Ratio
  | .ofNat k => (mantissa * Nat.pow 2 k, 1)
  | .negSucc k => (mantissa, Nat.pow 2 (k + 1))

/-- The numbers that round to one double: those between the bounds, and the
bounds themselves if `closed`. -/
structure Interval where
  low : Ratio
  high : Ratio
  closed : Bool

/-- The interval of `mantissa * 2 ^ exponent`. It reaches half way to each
neighbour; the neighbour below a power of two is only half as far away. -/
def interval (mantissa : Nat) (exponent : Int) : Interval where
  low :=
    if mantissa = Nat.pow 2 52 ∧ -1074 < exponent then binaryRatio (4 * mantissa - 1) (exponent - 2)
    else binaryRatio (2 * mantissa - 1) (exponent - 1)
  high := binaryRatio (2 * mantissa + 1) (exponent - 1)
  closed := mantissa % 2 == 0

def Interval.contains (i : Interval) (digits : Nat) (scale : Int) : Bool :=
  (!lt digits scale i.low && (i.closed || !eq digits scale i.low)) &&
    (lt digits scale i.high || (i.closed && eq digits scale i.high))

/-- The decimal exponent of a positive rational: the `p` with
`10 ^ p ≤ value < 10 ^ (p + 1)`. It is found from the binary length, upwards
from a bound below it. -/
def leadingPlace (value : Ratio) : Int :=
  let guess : Int := ((value.1.log2 : Int) - value.2.log2 - 1) * 30103 / 100000 - 1
  let above := [3, 2, 1].find? fun k => !(!lt 1 (guess + k) value && !eq 1 (guess + k) value)
  match above with
  | some k => guess + k
  | none => guess

/-- Of the two neighbours of a value on the grid of a scale, the one in the
interval; of two, the nearer, and at equal distance the even one. -/
def onGrid? (i : Interval) (value : Ratio) (scale : Int) : Option Nat :=
  let low := floor scale value
  match i.contains low scale, i.contains (low + 1) scale with
  | true, false => some low
  | false, true => some (low + 1)
  | false, false => none
  | true, true =>
    let middle := 2 * low + 1
    let double : Ratio := (2 * value.1, value.2)
    if lt middle scale double then some (low + 1)
    else if eq middle scale double then some (if low % 2 = 0 then low else low + 1)
    else some low

/-- Moves the zeros at the end of the digits into the scale. -/
def strip : Nat → Nat → Int → Decimal
  | 0, digits, scale => ⟨digits, scale⟩
  | fuel + 1, digits, scale =>
    if digits % 10 = 0 ∧ digits ≠ 0 then strip fuel (digits / 10) (scale + 1)
    else ⟨digits, scale⟩

/-- The shortest decimal of `mantissa * 2 ^ exponent`, which is positive. Of the
grids of 1, 2, ... 17 digits the first with a point in the interval counts. -/
def shortest (mantissa : Nat) (exponent : Int) : Decimal :=
  let value := binaryRatio mantissa exponent
  let around := interval mantissa exponent
  let place := leadingPlace value
  let hit := (List.range 17).findSome? fun (n : Nat) =>
    (onGrid? around value (place - n)).map fun digits => (digits, place - n)
  match hit with
  | some (digits, scale) => strip 18 digits scale
  | none => strip 18 (floor (place - 16) value) (place - 16)

end Decimal
end SchemaModels
