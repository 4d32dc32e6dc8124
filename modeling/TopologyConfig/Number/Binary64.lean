/-!
Binary floating-point numbers of 64 bits, computed exactly on their fields: a finite number is
`± mantissa · 2 ^ exponent`, and every operation rounds the exact result to the nearest number, ties to
the even mantissa.
-/
namespace TopologyConfig

/-- A floating-point number, given by its bits: sign, eleven bits of exponent, 52 of fraction. -/
structure Binary64 where
  bits : UInt64
deriving DecidableEq, Inhabited

namespace Binary64

def isNegative (x : Binary64) : Bool := Nat.pow 2 63 ≤ x.bits.toNat

def exponentField (x : Binary64) : Nat := x.bits.toNat / Nat.pow 2 52 % Nat.pow 2 11

def fraction (x : Binary64) : Nat := x.bits.toNat % Nat.pow 2 52

def isFinite (x : Binary64) : Bool := x.exponentField != 2047

def isInfinite (x : Binary64) : Bool := x.exponentField == 2047 && x.fraction == 0

def isNaN (x : Binary64) : Bool := x.exponentField == 2047 && x.fraction != 0

def mantissa (x : Binary64) : Nat :=
  if x.exponentField = 0 then x.fraction else Nat.pow 2 52 + x.fraction

def exponent (x : Binary64) : Int := Int.ofNat (max x.exponentField 1) - 1075

def ofFields (negative : Bool) (exponentField fraction : Nat) : Binary64 :=
  ⟨UInt64.ofNat ((if negative then Nat.pow 2 63 else 0) + exponentField * Nat.pow 2 52 + fraction)⟩

def zero (negative : Bool) : Binary64 := ofFields negative 0 0

def infinity (negative : Bool) : Binary64 := ofFields negative 2047 0

/-- A value that is no number. Two of them are the same one only if their labels agree. -/
def nan (label : Nat) : Binary64 := ofFields false 2047 (Nat.pow 2 51 + label % Nat.pow 2 51)

/-- `num · 2 ^ k / den`, split into quotient and remainder over the returned divisor. -/
def scaledQuotient (num den : Nat) (k : Int) : Nat × Nat × Nat :=
  let n := num * Nat.pow 2 k.toNat
  let d := den * Nat.pow 2 (-k).toNat
  (n / d, n % d, d)

def roundHalfEven (quotient remainder divisor : Nat) : Nat :=
  if 2 * remainder > divisor || (2 * remainder == divisor && quotient % 2 == 1) then quotient + 1
  else quotient

/-- The exponent under which `num / den` has 53 bits before the point, or the least exponent. -/
def ratioExponent (num den : Nat) : Int :=
  let guess : Int := Int.ofNat num.log2 - Int.ofNat den.log2 - 52
  let low := (scaledQuotient num den (-guess)).1
  max (if low < Nat.pow 2 52 then guess - 1 else if low < Nat.pow 2 53 then guess else guess + 1) (-1074)

def ofRatio (negative : Bool) (num den : Nat) : Binary64 :=
  if num = 0 then zero negative
  else
    let e := ratioExponent num den
    let (q, r, d) := scaledQuotient num den (-e)
    let m := roundHalfEven q r d
    if m < Nat.pow 2 52 then ofFields negative 0 m
    else
      let (m, e) := if m = Nat.pow 2 53 then (Nat.pow 2 52, e + 1) else (m, e)
      let field := e + 1075
      if field ≥ 2047 then infinity negative else ofFields negative field.toNat (m - Nat.pow 2 52)

/-- The number nearest to `± digits · 10 ^ exponent`; far beyond the range it is told by the size alone. -/
def ofDecimal (negative : Bool) (digits : Nat) (exponent : Int) : Binary64 :=
  let log := Int.ofNat digits.log2
  if digits = 0 then zero negative
  else if log / 4 + exponent > 310 then infinity negative
  else if log / 3 + exponent < -330 then zero negative
  else ofRatio negative (digits * Nat.pow 10 exponent.toNat) (Nat.pow 10 (-exponent).toNat)

def ofInt (n : Int) : Binary64 := ofRatio (n < 0) n.natAbs 1

def scaledTo (x : Binary64) (e : Int) : Int :=
  let n : Int := Int.ofNat (x.mantissa * Nat.pow 2 (x.exponent - e).toNat)
  if x.isNegative then -n else n

def compare? (x y : Binary64) : Option Ordering :=
  if x.isNaN || y.isNaN then none
  else if x.isInfinite || y.isInfinite then
    let rank (z : Binary64) : Int := if z.isInfinite then (if z.isNegative then -1 else 1) else 0
    some (compare (rank x) (rank y))
  else
    let e := min x.exponent y.exponent
    some (compare (x.scaledTo e) (y.scaledTo e))

def compareInt? (x : Binary64) (n : Int) : Option Ordering :=
  if x.isNaN then none
  else if x.isInfinite then some (if x.isNegative then .lt else .gt)
  else
    let e := min x.exponent 0
    some (compare (x.scaledTo e) (n * Int.ofNat (Nat.pow 2 (-e).toNat)))

def quotient (x : Binary64) : Int × Nat :=
  let e := min x.exponent 0
  (x.scaledTo e, Nat.pow 2 (-e).toNat)

def toInt? (x : Binary64) : Option Int :=
  if x.isFinite then
    let (n, unit) := x.quotient
    if n % unit = 0 then some (n / unit) else none
  else none

def floor (x : Binary64) : Int :=
  let (n, unit) := x.quotient
  n / unit

def truncated (x : Binary64) : Int :=
  let (n, unit) := x.quotient
  n.tdiv unit

def neg (x : Binary64) : Binary64 :=
  if x.isNaN then x else ofFields (!x.isNegative) x.exponentField x.fraction

def add (x y : Binary64) : Binary64 :=
  if x.isNaN then x
  else if y.isNaN then y
  else if x.isInfinite then
    if y.isInfinite && x.isNegative != y.isNegative then nan 0 else x
  else if y.isInfinite then y
  else
    let e := min x.exponent y.exponent
    let n := x.scaledTo e + y.scaledTo e
    if n = 0 then zero (x.isNegative && y.isNegative)
    else ofRatio (n < 0) (n.natAbs * Nat.pow 2 e.toNat) (Nat.pow 2 (-e).toNat)

def mul (x y : Binary64) : Binary64 :=
  let negative := x.isNegative != y.isNegative
  if x.isNaN then x
  else if y.isNaN then y
  else if x.isInfinite || y.isInfinite then
    if (x.isFinite && x.mantissa = 0) || (y.isFinite && y.mantissa = 0) then nan 0
    else infinity negative
  else
    let e := x.exponent + y.exponent
    ofRatio negative (x.mantissa * y.mantissa * Nat.pow 2 e.toNat) (Nat.pow 2 (-e).toNat)

end Binary64
end TopologyConfig
