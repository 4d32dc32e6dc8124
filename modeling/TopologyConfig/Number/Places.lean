import TopologyConfig.Number.Decimal

/-!
Quotients of whole numbers written with decimal places or with an exponent, rounded to the nearest, ties
to even.
-/
namespace TopologyConfig.Places

def zeros (n : Nat) : String := String.ofList (List.replicate n '0')

def pointed (keepPoint : Bool) (whole : Nat) (digits : String) : String :=
  let cs := digits.toList
  let rest := cs.drop whole
  String.ofList (cs.take whole) ++ (if rest.isEmpty && !keepPoint then "" else "." ++ String.ofList rest)

def nearest (num den : Nat) : Nat := Binary64.roundHalfEven (num / den) (num % den) den

/-- The first `count` digits of `num / den` after rounding, and the exponent of the first one. -/
def leading (count num den : Nat) : String × Int :=
  if num = 0 then (zeros count, 0)
  else
    let point := Binary64.decimalPoint num den
    let shift := Int.ofNat count - point
    let n := nearest (num * Nat.pow 10 shift.toNat) (den * Nat.pow 10 (-shift).toNat)
    if n < Nat.pow 10 count then (toString n, point - 1) else (toString (n / 10), point)

def fixed (keepPoint : Bool) (places num den : Nat) : String :=
  let digits := toString (nearest (num * Nat.pow 10 places) den)
  let digits := zeros (places + 1 - digits.length) ++ digits
  pointed keepPoint (digits.length - places) digits

def exponentText (e : Int) : String := "e" ++ Binary64.exponentText e

def scientific (keepPoint : Bool) (places num den : Nat) : String :=
  let (digits, e) := leading (places + 1) num den
  pointed keepPoint 1 digits ++ exponentText e

/-- Digits without the zeros at the end, but with the first `kept` of them in any case. -/
def stripped (kept : Nat) (digits : String) : String :=
  let cs := digits.toList
  String.ofList (cs.take kept ++ ((cs.drop kept).reverse.dropWhile (· == '0')).reverse)

/-- A quotient in the shorter of the two forms; zeros after the point are kept only together with it. -/
def general (keepPoint : Bool) (precision num den : Nat) : String :=
  let count := max precision 1
  let (digits, e) := leading count num den
  let isFixed := -4 ≤ e && e < Int.ofNat count
  let digits := if isFixed then zeros (-e).toNat ++ digits else digits
  let whole := if isFixed then e.toNat + 1 else 1
  let shown := if keepPoint then digits else stripped whole digits
  pointed keepPoint whole shown ++ (if isFixed then "" else exponentText e)

end TopologyConfig.Places
