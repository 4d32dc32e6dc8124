/-!
Bytes as base64 text. Writing breaks the text into lines of 76 characters; reading skips every character
outside of the alphabet and stops at a complete padding.
-/
namespace TopologyConfig.Base64

def digit (n : Nat) : Char :=
  if n < 26 then Char.ofNat (65 + n)
  else if n < 52 then Char.ofNat (71 + n)
  else if n < 62 then Char.ofNat (n - 4)
  else if n = 62 then '+' else '/'

def value? (c : Char) : Option Nat :=
  if c.isUpper then some (c.toNat - 65)
  else if c.isLower then some (c.toNat - 71)
  else if c.isDigit then some (c.toNat + 4)
  else if c == '+' then some 62
  else if c == '/' then some 63
  else none

def encode : List UInt8 → List Char
  | [] => []
  | [a] =>
    let n := a.toNat * 16
    [digit (n / 64), digit (n % 64), '=', '=']
  | [a, b] =>
    let n := (a.toNat * 256 + b.toNat) * 4
    [digit (n / 4096), digit (n / 64 % 64), digit (n % 64), '=']
  | a :: b :: c :: rest =>
    let n := (a.toNat * 256 + b.toNat) * 256 + c.toNat
    digit (n / 262144) :: digit (n / 4096 % 64) :: digit (n / 64 % 64) :: digit (n % 64) :: encode rest

def inLines (width : Nat) : Nat → List Char → List Char
  | 0, _ => []
  | fuel + 1, cs =>
    if cs.isEmpty then [] else cs.take width ++ '\n' :: inLines width fuel (cs.drop width)

def encodeLines (bytes : List UInt8) : String :=
  let cs := encode bytes
  String.ofList (inLines 76 cs.length cs)

/-- Reads from a place within a group of four; `bits` are those of its last character that are left. -/
def decodeFrom (place bits pads : Nat) : List Char → Option (List UInt8)
  | [] => if place = 0 then some [] else none
  | c :: cs =>
    if c == '=' then
      if place < 2 then decodeFrom place bits pads cs
      else if place + pads + 1 ≥ 4 then some []
      else decodeFrom place bits (pads + 1) cs
    else
      match value? c with
      | none => decodeFrom place bits pads cs
      | some v =>
        match place with
        | 0 => decodeFrom 1 v 0 cs
        | 1 => (decodeFrom 2 (v % 16) 0 cs).map (UInt8.ofNat (bits * 4 + v / 16) :: ·)
        | 2 => (decodeFrom 3 (v % 4) 0 cs).map (UInt8.ofNat (bits * 16 + v / 4) :: ·)
        | _ => (decodeFrom 0 0 0 cs).map (UInt8.ofNat (bits * 64 + v) :: ·)

def decode? (text : String) : Option (List UInt8) := decodeFrom 0 0 0 text.toList

end TopologyConfig.Base64
