import TopologyConfig.Number.Binary64
import TopologyConfig.Number.Numeral

/-!
Floating-point numbers as decimal text. The written form has the fewest digits that read back as the
same number and, among those, the nearest ones; it is positional for exponents from -4 to 15.
-/
namespace TopologyConfig.Binary64

structure ShortDecimal where
  digits : List Nat
  point : Int

/-- The numbers that round to a finite number: an interval on the grid of a quarter of its last place. -/
structure RoundingInterval where
  low : Nat
  middle : Nat
  high : Nat
  exponent : Int
  closed : Bool

def roundingInterval (x : Binary64) : RoundingInterval :=
  let m := x.mantissa
  let low := if m = Nat.pow 2 52 && x.exponentField > 1 then 4 * m - 1 else 4 * m - 2
  ⟨low, 4 * m, 4 * m + 2, x.exponent - 2, m % 2 == 0⟩

namespace RoundingInterval

def contains (i : RoundingInterval) (num den : Nat) : Bool :=
  let n := num * Nat.pow 2 (-i.exponent).toNat
  let scale := den * Nat.pow 2 i.exponent.toNat
  if i.closed then i.low * scale ≤ n && n ≤ i.high * scale
  else i.low * scale < n && n < i.high * scale

end RoundingInterval

def decimalPoint (num den : Nat) : Int :=
  let guess : Int := (Int.ofNat num.log2 - Int.ofNat den.log2) * 30103 / 100000
  let reaches (p : Int) : Bool := den * Nat.pow 10 p.toNat ≤ num * Nat.pow 10 (-p).toNat
  if reaches (guess + 1) then guess + 2
  else if reaches guess then guess + 1
  else if reaches (guess - 1) then guess
  else guess - 1

/-- The point of the grid of `n` digits that lies in the interval and is nearest to its middle. -/
def nearestOnGrid? (i : RoundingInterval) (num den : Nat) (point : Int) (n : Nat) : Option Nat :=
  let k := point - Int.ofNat n
  let up := Nat.pow 10 k.toNat
  let down := Nat.pow 10 (-k).toNat
  let q := num * down / (den * up)
  let r := num * down % (den * up)
  let inside (d : Nat) : Bool := i.contains (d * up) down
  let below := q > 0 && inside q
  let above := inside (q + 1)
  if below && above then
    some (if 2 * r > den * up || (2 * r == den * up && q % 2 == 1) then q + 1 else q)
  else if below then some q
  else if above then some (q + 1)
  else none

/-- The digits of a number, leading first and without trailing zeros, and how many there were in all. -/
def significantDigits (d : Nat) : List Nat × Nat :=
  let all := (Nat.toDigits 10 d).map (fun c => c.toNat - 48)
  ((all.reverse.dropWhile (· == 0)).reverse, all.length)

/-- The shortest decimal that reads back as a finite number other than zero. -/
def shortest (x : Binary64) : ShortDecimal :=
  let i := x.roundingInterval
  let num := x.quotient.1.natAbs
  let den := x.quotient.2
  let point := decimalPoint num den
  match (List.range 17).findSome? (fun k => (nearestOnGrid? i num den point (k + 1)).map (k + 1, ·)) with
  | some (n, d) =>
    let (digits, count) := significantDigits d
    ⟨digits, point + (Int.ofNat count - Int.ofNat n)⟩
  | none => ⟨[], 0⟩

structure SpecialNames where
  nan : String
  infinity : String
  negativeInfinity : String

def digitText (ds : List Nat) : String := String.ofList (ds.map Nat.digitChar)

def exponentText (e : Int) : String :=
  let digits := toString e.natAbs
  (if e < 0 then "-" else "+") ++ (if digits.length < 2 then "0" ++ digits else digits)

/-- Writes a decimal, positional when its point lies from three places before to sixteen after the first digit. -/
def ShortDecimal.text (d : ShortDecimal) : String :=
  let n := d.digits.length
  if -4 < d.point && d.point ≤ 16 then
    if d.point ≤ 0 then
      "0." ++ String.ofList (List.replicate (-d.point).toNat '0') ++ digitText d.digits
    else
      let p := d.point.toNat
      if n ≤ p then digitText d.digits ++ String.ofList (List.replicate (p - n) '0') ++ ".0"
      else digitText (d.digits.take p) ++ "." ++ digitText (d.digits.drop p)
  else
    digitText (d.digits.take 1) ++ (if n > 1 then "." ++ digitText (d.digits.drop 1) else "") ++
      "e" ++ exponentText (d.point - 1)

def textWith (names : SpecialNames) (x : Binary64) : String :=
  if x.isNaN then names.nan
  else if x.isInfinite then (if x.isNegative then names.negativeInfinity else names.infinity)
  else
    (if x.isNegative then "-" else "") ++
      (if x.mantissa = 0 then "0.0" else x.shortest.text)

def text (x : Binary64) : String := x.textWith ⟨"nan", "inf", "-inf"⟩

structure Literal where
  whole : List Char
  decimals : List Char
  exponent : Int

/-- An exponent clipped to a range beyond which only zero and infinity are left. -/
def clipExponent (negative : Bool) (ds : List Char) : Int :=
  let ds := ds.dropWhile (· == '0')
  let n : Int := if ds.length > 9 then 1000000000 else Int.ofNat (Numeral.value 10 ds)
  if negative then -n else n

def readExponent? : List Char → Option Int
  | [] => some 0
  | c :: rest =>
    if c == 'e' || c == 'E' then
      let (negative, ds) := Numeral.splitSign rest
      if !ds.isEmpty && ds.all Char.isDigit then some (clipExponent negative ds) else none
    else none

def Literal.read? (cs : List Char) : Option Literal :=
  let whole := cs.takeWhile Char.isDigit
  let afterWhole := cs.dropWhile Char.isDigit
  let decimals := match afterWhole with
    | '.' :: rest => rest.takeWhile Char.isDigit
    | _ => []
  let afterDecimals := match afterWhole with
    | '.' :: rest => rest.dropWhile Char.isDigit
    | rest => rest
  if whole.isEmpty && decimals.isEmpty then none
  else (readExponent? afterDecimals).map (⟨whole, decimals, ·⟩)

def Literal.toBinary64 (l : Literal) (negative : Bool) : Binary64 :=
  ofDecimal negative (Numeral.value 10 (l.whole ++ l.decimals)) (l.exponent - Int.ofNat l.decimals.length)

def groupedWell : List Char → Bool
  | a :: '_' :: b :: rest => a.isDigit && b.isDigit && groupedWell (b :: rest)
  | '_' :: _ => false
  | [_, '_'] => false
  | _ :: rest => groupedWell rest
  | [] => true

def asciiDigit (c : Char) : Char :=
  match Numeral.decimalValue? c with
  | some d => Nat.digitChar d
  | none => c

def read? (text : String) : Option Binary64 :=
  let cs := (Text.trim text.toList).map asciiDigit
  let (negative, rest) := Numeral.splitSign cs
  let word := String.ofList (rest.map Char.toLower)
  if word == "inf" || word == "infinity" then some (infinity negative)
  else if word == "nan" then some (nan 0)
  else if groupedWell cs then
    (Literal.read? (rest.filter (· != '_'))).map (·.toBinary64 negative)
  else none

end TopologyConfig.Binary64
