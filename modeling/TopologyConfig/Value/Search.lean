import TopologyConfig.Value.Iteration

/-!
Places in a sequence: indexes, bounds, and the search for an item of a list or for a part of a text.
-/
namespace TopologyConfig.Value

def integer? : Value → Option Int
  | bool b => some (if b then 1 else 0)
  | int n => some n
  | _ => none

def isHuge (n : Int) : Bool := !Numeral.isWord64 n

def integer (v : Value) : Except Misuse Int :=
  match v.integer? with
  | none => .error (.notInteger v.qualifiedTypeName)
  | some n => if isHuge n then .error .hugeCount else .ok n

def subscript (sequence : String) (v : Value) : Except Misuse Int :=
  match v.integer? with
  | none => .error (.badIndex sequence v.qualifiedTypeName)
  | some n => if isHuge n then .error (.hugeIndex v.qualifiedTypeName) else .ok n

def place? (length : Nat) (i : Int) : Option Nat :=
  let j := if i < 0 then i + Int.ofNat length else i
  if 0 ≤ j && j < Int.ofNat length then some j.toNat else none

def placeAt (what : String) (length : Nat) (i : Int) : Except Misuse Nat :=
  match place? length i with
  | some n => .ok n
  | none => .error (.indexRange what)

/-- The place of a bound; negative ones count from the end, and end at the beginning. -/
def boundPlace (length : Nat) (i : Int) : Nat := (if i < 0 then i + Int.ofNat length else i).toNat

/-- The place before which an item is inserted; indexes beyond the ends mean the ends. -/
def insertPlace (length : Nat) (i : Int) : Nat := min (boundPlace length i) length

def itemAt (xs : List Value) (n : Nat) : Value := xs.getD n .null

def itemBound (length : Nat) (v : Value) : Except Misuse Nat :=
  match v.integer? with
  | none => .error .badSlice
  | some i => .ok (boundPlace length i)

def textBound (length usual : Nat) (v : Value) : Except Misuse Nat :=
  match v, v.integer? with
  | .null, _ => .ok usual
  | _, some i => .ok (boundPlace length i)
  | _, none => .error .badBound

def countItem (xs : List Value) (x : Value) : Nat := xs.countP (fun y => same y x)

def findBetween (xs : List Value) (x : Value) (low high : Nat) : Option Nat :=
  (((xs.take high).drop low).findIdx? (fun y => same y x)).map (· + low)

def indexOf (xs : List Value) (missing : Value → Misuse) (args : List Value) : Except Misuse Nat :=
  let found (x : Value) (low high : Nat) : Except Misuse Nat :=
    match findBetween xs x low high with
    | some n => .ok n
    | none => .error (missing x)
  match args with
  | [] => .error (.arity (.atLeast "index" 1) 0)
  | [x] => found x 0 xs.length
  | [x, a] => do found x (← itemBound xs.length a) xs.length
  | [x, a, b] => do found x (← itemBound xs.length a) (← itemBound xs.length b)
  | args => .error (.arity (.atMost "index" 3) args.length)

section

variable {β : Type} [BEq β]

def findPart (part : List β) : List β → Option Nat
  | [] => if part.isEmpty then some 0 else none
  | x :: xs => if part.isPrefixOf (x :: xs) then some 0 else (findPart part xs).map (· + 1)

/-- How often a part stands in a text, without overlap; some characters belong to a part already. -/
def countPart (part : List β) (taken : Nat) : List β → Nat
  | [] => if part.isEmpty then 1 else 0
  | x :: xs =>
    match taken with
    | n + 1 => countPart part n xs
    | 0 => if part.isPrefixOf (x :: xs) then countPart part (part.length - 1) xs + 1 else countPart part 0 xs

def between? (xs : List β) (low high : Nat) : Option (List β) :=
  if low ≤ min high xs.length then some ((xs.take high).drop low) else none

structure PartSearch (β : Type) where
  part : List β
  low : Nat
  high : Nat

def partSearch (method : String) (length : Nat) (read : Value → Except Misuse (List β)) :
    List Value → Except Misuse (PartSearch β)
  | [x] => do pure ⟨← read x, 0, length⟩
  | [x, a] => do
    let low ← textBound length 0 a
    pure ⟨← read x, low, length⟩
  | [x, a, b] => do
    let low ← textBound length 0 a
    let high ← textBound length length b
    pure ⟨← read x, low, high⟩
  | args => .error (.arity (.between method 1 3) args.length)

def PartSearch.count (s : PartSearch β) (xs : List β) : Nat :=
  match between? xs s.low s.high with
  | some ys => countPart s.part 0 ys
  | none => 0

def PartSearch.place? (s : PartSearch β) (xs : List β) : Option Nat :=
  ((between? xs s.low s.high).bind (findPart s.part)).map (· + s.low)

end

def textPart : Value → Except Misuse (List Char)
  | str s => .ok s.toList
  | v => .error (.notText v.qualifiedTypeName)

def bytesPart (v : Value) : Except Misuse (List UInt8) :=
  match v, v.integer? with
  | bytes bs, _ => .ok bs
  | _, some n => if 0 ≤ n && n < 256 then .ok [UInt8.ofNat n.toNat] else .error .byteRange
  | v, none => .error (.notByteOrBytes v.qualifiedTypeName)

end TopologyConfig.Value
