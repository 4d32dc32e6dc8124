import TopologyConfig.Text.Quoted

/-!
Texts as UTF-8 bytes. Decoding stops at the first byte that cannot belong to a character and tells
where that is and why.
-/
namespace TopologyConfig.Text

inductive Utf8Fault where
  | invalidStart
  | invalidContinuation
  | truncated
deriving DecidableEq

structure Utf8Error where
  byte : UInt8
  start : Nat
  length : Nat
  fault : Utf8Fault

namespace Utf8Error

def reason (e : Utf8Error) : String :=
  match e.fault with
  | .invalidStart => "invalid start byte"
  | .invalidContinuation => "invalid continuation byte"
  | .truncated => "unexpected end of data"

def message (e : Utf8Error) : String :=
  if e.length ≤ 1 then
    "'utf-8' codec can't decode byte 0x" ++ String.ofList (hex 2 e.byte.toNat) ++ " in position " ++
      toString e.start ++ ": " ++ e.reason
  else
    "'utf-8' codec can't decode bytes in position " ++ toString e.start ++ "-" ++
      toString (e.start + e.length - 1) ++ ": " ++ e.reason

end Utf8Error

/-- How many bytes follow a first byte, and the range of the one right after it. -/
def utf8Tail (b : Nat) : Option (Nat × Nat × Nat) :=
  if 0xC2 ≤ b && b ≤ 0xDF then some (1, 0x80, 0xBF)
  else if b == 0xE0 then some (2, 0xA0, 0xBF)
  else if b == 0xED then some (2, 0x80, 0x9F)
  else if 0xE1 ≤ b && b ≤ 0xEF then some (2, 0x80, 0xBF)
  else if b == 0xF0 then some (3, 0x90, 0xBF)
  else if b == 0xF4 then some (3, 0x80, 0x8F)
  else if 0xF1 ≤ b && b ≤ 0xF3 then some (3, 0x80, 0xBF)
  else none

/-- Takes `count` continuation bytes, the first within the given range; `taken` of them are read already. -/
def utf8Continue (count low high code taken : Nat) (bytes : List UInt8) :
    Except (Nat × Utf8Fault) Nat :=
  match count with
  | 0 => .ok code
  | count + 1 =>
    match bytes with
    | [] => .error (taken, .truncated)
    | b :: rest =>
      if low ≤ b.toNat && b.toNat ≤ high then
        utf8Continue count 0x80 0xBF (code * 64 + b.toNat % 64) (taken + 1) rest
      else .error (taken, .invalidContinuation)

def decodeUtf8From (position skip : Nat) : List UInt8 → Except Utf8Error (List Char)
  | [] => .ok []
  | b :: rest =>
    match skip with
    | skip + 1 => decodeUtf8From (position + 1) skip rest
    | 0 =>
      if b.toNat < 0x80 then
        (decodeUtf8From (position + 1) 0 rest).map (Char.ofNat b.toNat :: ·)
      else
        match utf8Tail b.toNat with
        | none => .error ⟨b, position, 1, .invalidStart⟩
        | some (count, low, high) =>
          let lead := b.toNat % Nat.pow 2 (6 - count)
          match utf8Continue count low high lead 1 rest with
          | .error (taken, fault) => .error ⟨b, position, taken, fault⟩
          | .ok code => (decodeUtf8From (position + 1) count rest).map (Char.ofNat code :: ·)

def decodeUtf8 (bytes : List UInt8) : Except Utf8Error String :=
  (decodeUtf8From 0 0 bytes).map String.ofList

end TopologyConfig.Text
