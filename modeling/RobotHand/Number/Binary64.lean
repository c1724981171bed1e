import RobotHand.Number.Breakdown
import RobotHand.Number.Rounding

/-! The exact value of a double, and the conversions to and from quotients and integers that rest on
it. -/
namespace RobotHand

/-- A finite double is `significand * 2 ^ exponent`, with a sign. -/
inductive Binary64
  | nan
  | infinite (negative : Bool)
  | finite (negative : Bool) (significand : Nat) (exponent : Int)
  deriving DecidableEq, Repr

namespace Binary64

/-- The least significand of a normal number, `2 ^ 52`. -/
def hidden : Nat := 0x10000000000000

def leastExponent : Int := -1074

def greatestExponent : Int := 971

def zero : Binary64 := finite false 0 leastExponent

/-- Splits the bits of a double into sign, exponent and significand. -/
def ofFloat (x : Float) : Binary64 :=
  let bits : Nat := x.toBits.toNat
  let negative := decide (0x8000000000000000 ≤ bits)
  let exponent : Nat := bits / hidden % 0x800
  let fraction : Nat := bits % hidden
  if exponent = 0x7ff then
    if fraction = 0 then .infinite negative else .nan
  else if exponent = 0 then .finite negative fraction leastExponent
  else .finite negative (fraction + hidden) (exponent - 1 + leastExponent)

def magnitude : Binary64 → Nat
  | nan => 0x7ff8000000000000
  | infinite _ => 0x7ff0000000000000
  | finite _ s e => if s < hidden then s else (e - leastExponent).toNat * hidden + s

/-- The sign, which a NaN lacks. -/
def isNegative : Binary64 → Bool
  | nan => false
  | infinite negative | finite negative _ _ => negative

def toFloat (b : Binary64) : Float :=
  .ofBits (.ofNat (b.magnitude + if b.isNegative then 0x8000000000000000 else 0))

/-- The exponent of the leading bit of the positive quotient `p / q`. -/
def leadingExponent (p q : Nat) : Int :=
  if q ≤ p then (p / q).log2 else -(((q - 1) / p).log2 + 1 : Nat)

/-- The quotient `p / q` in units of `2 ^ exponent`, as a numerator and a denominator. -/
def units (p q : Nat) (exponent : Int) : Nat × Nat :=
  if 0 ≤ exponent then (p, q * Nat.pow 2 exponent.toNat)
  else (p * Nat.pow 2 (-exponent).toNat, q)

/-- The double nearest to the quotient `p / q`, a tie to the even significand; beyond the greatest
one lies infinity. -/
def nearest (p q : Nat) : Binary64 :=
  if p = 0 then zero
  else
    let e := max leastExponent (leadingExponent p q - 52)
    let (a, b) := units p q e
    let s := roundDiv a b
    let (s, e) := if s = 2 * hidden then (hidden, e + 1) else (s, e)
    if greatestExponent < e then infinite false else finite false s e

/-- Numerator and denominator of `significand * 2 ^ exponent`. -/
def ratio (significand : Nat) (exponent : Int) : Nat × Nat :=
  if 0 ≤ exponent then (significand * Nat.pow 2 exponent.toNat, 1)
  else (significand, Nat.pow 2 (-exponent).toNat)

/-- Neither infinite nor a NaN. -/
def isFinite : Binary64 → Bool
  | finite .. => true
  | _ => false

def floor : Binary64 → Except Breakdown Int
  | nan => .error .nanToInteger
  | infinite _ => .error .infinityToInteger
  | finite negative s e =>
    let (p, q) := ratio s e
    .ok (if negative then -(p : Int) / q else (p : Int) / q)

/-- The value toward zero, as an integer. -/
def truncate : Binary64 → Except Breakdown Int
  | nan => .error .nanToInteger
  | infinite _ => .error .infinityToInteger
  | finite negative s e =>
    let (p, q) := ratio s e
    .ok (if negative then -((p / q : Nat) : Int) else (p / q : Nat))

def toInt? : Binary64 → Option Int
  | finite negative s e =>
    let (p, q) := ratio s e
    if p % q = 0 then some (if negative then -((p / q : Nat) : Int) else (p / q : Nat)) else none
  | _ => none

/-- Whether a natural number is at most the value, compared exactly. -/
def natLe (n : Nat) : Binary64 → Bool
  | nan => false
  | infinite negative => !negative
  | finite negative s e =>
    let (p, q) := ratio s e
    if negative then n == 0 && p == 0 else decide (n * q ≤ p)

/-- The double nearest to an integer. -/
def ofInt (i : Int) : Binary64 :=
  match nearest i.natAbs 1 with
  | finite _ s e => finite (decide (i < 0)) s e
  | infinite _ => infinite (decide (i < 0))
  | nan => nan

end Binary64

/-- The double nearest to an integer; one that would round beyond the greatest is refused. -/
def floatOfInt (i : Int) : Except Breakdown Float :=
  let b := Binary64.ofInt i
  if b.isFinite then .ok b.toFloat else .error .tooLarge

/-- Adds one half in floating point and takes the floor, so a half goes up. -/
def roundHalfUp (x : Float) : Except Breakdown Int :=
  (Binary64.ofFloat (x + 0.5)).floor

end RobotHand
