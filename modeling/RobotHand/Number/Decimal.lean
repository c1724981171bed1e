import RobotHand.Number.Binary64

/-! Doubles and decimal digits: a fixed count of digits, the fewest that read back, and reading. -/
namespace RobotHand.Decimal

def digitCount (n : Nat) : Nat := (Nat.toDigits 10 n).length

/-- The exponent of the leading digit of the positive quotient `p / q`. -/
def leadingExponent (p q : Nat) : Int :=
  if q ≤ p then (digitCount (p / q) : Int) - 1 else -(digitCount ((q - 1) / p) : Int)

/-- The quotient `p / q` times a power of ten, as a numerator and a denominator. -/
def scale (p q : Nat) (power : Int) : Nat × Nat :=
  if 0 ≤ power then (p * Nat.pow 10 power.toNat, q) else (p, q * Nat.pow 10 (-power).toNat)

/-- `d * 10 ^ (e + 1 - n)` is nearest to `p / q` among the numbers of `n` digits; the result is
`d` and `e`, and zero has the exponent zero. -/
def significant (n p q : Nat) : Nat × Int :=
  if p = 0 then (0, 0)
  else
    let e := leadingExponent p q
    let (a, b) := scale p q (n - 1 - e)
    let d := roundDiv a b
    if d = Nat.pow 10 n then (Nat.pow 10 (n - 1), e + 1) else (d, e)

/-- The double nearest to `digits * 10 ^ exponent`. -/
def nearest (digits : Nat) (exponent : Int) : Binary64 :=
  let size := (digitCount digits : Int) + exponent
  if digits = 0 ∨ size < -330 then .zero
  else if 310 < size then .infinite false
  else
    let (p, q) := scale digits 1 exponent
    .nearest p q

def toFloat (digits : Nat) (exponent : Int) : Float := (nearest digits exponent).toFloat

/-- The two numbers of `n` digits around `p / q`, the nearer one first. -/
def candidates (n p q : Nat) : List (Nat × Int) :=
  let e := leadingExponent p q
  let (a, b) := scale p q (n - 1 - e)
  let low := a / b
  let near := roundDiv a b
  [(near, e + 1 - n), (if near = low then low + 1 else low, e + 1 - n)]

/-- All digits of `significand * 2 ^ exponent`, and the power of ten that they count. -/
def exactly (significand : Nat) (exponent : Int) : Nat × Int :=
  if 0 ≤ exponent then (significand * Nat.pow 2 exponent.toNat, 0)
  else (significand * Nat.pow 5 (-exponent).toNat, exponent)

/-- The fewest digits `d`, and an exponent `k`, such that `d * 10 ^ k` reads back as the given
positive double; of two such numbers the nearer one. All digits are kept where more than 17 would
be needed. -/
def shortest (x : Float) : Nat × Int :=
  match Binary64.ofFloat x with
  | .finite _ s k =>
    let (p, q) := Binary64.ratio s k
    if p = 0 then (0, 0)
    else
      let all := (List.range 17).flatMap fun n => candidates (n + 1) p q
      (all.find? fun (d, e) => toFloat d e == x).getD (exactly s k)
  | _ => (0, 0)

/-- A number as digits, with zeros in front up to a width. -/
def padded (width n : Nat) : String :=
  let digits := Nat.toDigits 10 n
  String.ofList (List.replicate (width - digits.length) '0' ++ digits)

def dropZeros (s : List Char) : List Char :=
  (s.reverse.dropWhile (· == '0')).reverse

/-- Digits before and after a point, which goes where none follow. -/
def withFraction (whole fraction : List Char) : String :=
  String.ofList (if fraction.isEmpty then whole else whole ++ '.' :: fraction)

/-- The exponent part: a sign and at least two digits. -/
def exponentText (e : Int) : String :=
  (if e < 0 then "e-" else "e+") ++ padded 2 e.natAbs

/-- The words for what is not finite; the sign of a finite number comes first. -/
def special (x : Float) (finite : Bool → Nat → Int → String) : String :=
  match Binary64.ofFloat x with
  | .nan => "nan"
  | .infinite negative => if negative then "-inf" else "inf"
  | .finite negative s e => (if negative then "-" else "") ++ finite negative s e

/-- One digit, a point, the other digits, and an exponent. -/
def scientific (n : Nat) (x : Float) : String :=
  special x fun _ s k =>
    let (p, q) := Binary64.ratio s k
    let (d, e) := significant n p q
    let digits := (padded n d).toList
    withFraction (digits.take 1) (digits.drop 1) ++ exponentText e

/-- Six digits without trailing zeros, written with an exponent where that is below -4 or
above 5. -/
def general (x : Float) : String :=
  special x fun _ s k =>
    let (p, q) := Binary64.ratio s k
    let (d, e) := significant 6 p q
    let digits := (padded 6 d).toList
    if e < -4 ∨ 6 ≤ e then
      withFraction (digits.take 1) (dropZeros (digits.drop 1)) ++ exponentText e
    else if e < 0 then
      withFraction ['0'] (dropZeros (List.replicate (-e - 1).toNat '0' ++ digits))
    else
      withFraction (digits.take (e + 1).toNat) (dropZeros (digits.drop (e + 1).toNat))

/-- `d * 10 ^ k` with at least one decimal where no exponent is written: that is from `0.00001` up
to below `1e16`. -/
def positional (d : Nat) (k : Int) : String :=
  if d = 0 then "0.0"
  else
    let all := Nat.toDigits 10 d
    let digits := dropZeros all
    let point : Int := all.length + k
    if 16 < point ∨ point ≤ -5 then
      withFraction (digits.take 1) (digits.drop 1) ++ "e" ++ toString (point - 1)
    else if point ≤ 0 then
      String.ofList ("0.".toList ++ List.replicate (-point).toNat '0' ++ digits)
    else if digits.length ≤ point then
      String.ofList (digits ++ List.replicate (point.toNat - digits.length) '0' ++ ['.', '0'])
    else withFraction (digits.take point.toNat) (digits.drop point.toNat)

/-- The shortest digits that read back. -/
def plain (x : Float) : String :=
  special x fun _ _ _ =>
    let (d, k) := shortest x.abs
    positional d k

end RobotHand.Decimal
