/-!
Double-precision numbers as exact data: a sign, a mantissa and a power of two,
or one of the special values. Rounding from a quotient or a decimal is exact
arithmetic on naturals, so no step depends on the machine's own floats.
-/
namespace SchemaModels

/-- The mantissas and exponents of finite numbers: at most 53 binary digits, all
53 of them unless the exponent is the smallest. -/
def Binary64.Canonical (mantissa : Nat) (exponent : Int) : Prop :=
  mantissa < Nat.pow 2 53 ∧ -1074 ≤ exponent ∧ exponent ≤ 971 ∧
    (Nat.pow 2 52 ≤ mantissa ∨ exponent = -1074)

instance (mantissa : Nat) (exponent : Int) :
    Decidable (Binary64.Canonical mantissa exponent) := by
  unfold Binary64.Canonical
  infer_instance

/-- A double. A finite one has the value `mantissa * 2 ^ exponent`, negated if
`negative`; zero has both signs. -/
inductive Binary64 where
  | notANumber
  | infinite (negative : Bool)
  | finite (negative : Bool) (mantissa : Nat) (exponent : Int)
      (canonical : Binary64.Canonical mantissa exponent)
  deriving DecidableEq

namespace Binary64

def zero (negative : Bool) : Binary64 := .finite negative 0 (-1074) (by decide)

instance : Inhabited Binary64 := ⟨zero false⟩

/-- The number with these parts, infinite when they are out of range. -/
def ofParts (negative : Bool) (mantissa : Nat) (exponent : Int) : Binary64 :=
  if h : Canonical mantissa exponent then .finite negative mantissa exponent h
  else .infinite negative

/-- Numerical equality: the two zeros are equal, and the number that is none
equals nothing. -/
def equal : Binary64 → Binary64 → Bool
  | .notANumber, _ => false
  | _, .notANumber => false
  | .finite s m e _, .finite s' m' e' _ =>
    (m == 0 && m' == 0) || (s == s' && m == m' && e == e')
  | .infinite s, .infinite s' => s == s'
  | _, _ => false

/-- The natural nearest to a quotient; a half goes to the even neighbour. -/
def nearestEven (num den : Nat) : Nat :=
  let q := num / den
  let r := num % den
  if 2 * r < den then q
  else if den < 2 * r then q + 1
  else if q % 2 = 0 then q else q + 1

/-- The natural nearest to `num / den / 2 ^ exponent`. -/
def scaledQuotient (num den : Nat) : Int → Nat
  | .ofNat k => nearestEven num (den * Nat.pow 2 k)
  | .negSucc k => nearestEven (num * Nat.pow 2 (k + 1)) den

/-- Whether `2 ^ exponent ≤ num / den`. -/
def powerLe (exponent : Int) (num den : Nat) : Bool :=
  match exponent with
  | .ofNat k => decide (den * Nat.pow 2 k ≤ num)
  | .negSucc k => decide (den ≤ num * Nat.pow 2 (k + 1))

/-- The power of two at or below a positive quotient. The logarithms of the two
parts give it up to one. -/
def leadingPower (num den : Nat) : Int :=
  let guess : Int := (num.log2 : Int) - den.log2
  if powerLe guess num den then guess else guess - 1

/-- The double nearest to `num / den`, a half going to the even mantissa. -/
def ofRatio (negative : Bool) (num den : Nat) : Binary64 :=
  if num = 0 then zero negative
  else
    let exponent := max (leadingPower num den - 52) (-1074)
    let mantissa := scaledQuotient num den exponent
    if mantissa = Nat.pow 2 53 then ofParts negative (Nat.pow 2 52) (exponent + 1)
    else ofParts negative mantissa exponent

/-- The double nearest to `digits * 10 ^ scale`. Numbers that are certainly out
of range are settled by their size, before a power of ten is built. -/
def ofDecimal (negative : Bool) (digits : Nat) (scale : Int) : Binary64 :=
  if digits = 0 then zero negative
  else if 400 < scale then .infinite negative
  else if scale + digits.log2 / 3 + 1 < -330 then zero negative
  else
    match scale with
    | .ofNat k => ofRatio negative (digits * Nat.pow 10 k) 1
    | .negSucc k => ofRatio negative digits (Nat.pow 10 (k + 1))

/-- The double nearest to an integer, infinite when it is too large. -/
def ofInt (n : Int) : Binary64 := ofRatio (decide (n < 0)) n.natAbs 1

/-- The natural that `mantissa * 2 ^ exponent` equals, if there is one. -/
def wholePart? (mantissa : Nat) : Int → Option Nat
  | .ofNat k => some (mantissa * Nat.pow 2 k)
  | .negSucc k =>
    if mantissa % Nat.pow 2 (k + 1) = 0 then some (mantissa / Nat.pow 2 (k + 1)) else none

/-- The integer that a number equals, if there is one. -/
def toInt? : Binary64 → Option Int
  | .finite negative mantissa exponent _ =>
    (wholePart? mantissa exponent).map fun n => if negative then -(n : Int) else n
  | _ => none

def isFinite : Binary64 → Bool
  | .finite .. => true
  | _ => false

/-- The number with its sign turned around, if that is asked for. -/
def negatedIf (x : Binary64) (negate : Bool) : Binary64 :=
  match x with
  | .notANumber => .notANumber
  | .infinite negative => .infinite (negative != negate)
  | .finite negative mantissa exponent h => .finite (negative != negate) mantissa exponent h

/-- The double nearest to `mantissa * 2 ^ exponent`. -/
def ofScaled (negative : Bool) (mantissa : Nat) : Int → Binary64
  | .ofNat k => ofRatio negative (mantissa * Nat.pow 2 k) 1
  | .negSucc k => ofRatio negative mantissa (Nat.pow 2 (k + 1))

/-- The product of two numbers, rounded. -/
def times : Binary64 → Binary64 → Binary64
  | .notANumber, _ => .notANumber
  | _, .notANumber => .notANumber
  | .finite s m e _, .finite s' m' e' _ => ofScaled (s != s') (m * m') (e + e')
  | .infinite s, .infinite s' => .infinite (s != s')
  | .infinite s, .finite s' m _ _ => if m = 0 then .notANumber else .infinite (s != s')
  | .finite s m _ _, .infinite s' => if m = 0 then .notANumber else .infinite (s != s')

/-- The sum of two numbers, rounded. A sum of nothing is negative only if both parts are. -/
def add : Binary64 → Binary64 → Binary64
  | .notANumber, _ => .notANumber
  | _, .notANumber => .notANumber
  | .infinite s, .infinite s' => if s = s' then .infinite s else .notANumber
  | .infinite s, .finite .. => .infinite s
  | .finite .., .infinite s => .infinite s
  | .finite s m e _, .finite s' m' e' _ =>
    let low := min e e'
    let signed (negative : Bool) (mantissa : Nat) (exponent : Int) : Int :=
      let n : Int := mantissa * Nat.pow 2 (exponent - low).toNat
      if negative then -n else n
    let sum := signed s m e + signed s' m' e'
    if sum = 0 then zero (s && s') else ofScaled (decide (sum < 0)) sum.natAbs low

end Binary64
end SchemaModels
