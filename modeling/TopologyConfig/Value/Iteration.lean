import TopologyConfig.Value.Entries
import TopologyConfig.Value.Misuse

/-!
Going through the parts of a value: items of a list, keys of a mapping, characters of a text. Pairs that
are found so make up the entries of a map.
-/
namespace TopologyConfig.Value

def parts? : Value → Option (List Value)
  | list xs => some xs
  | frozenList xs => some xs
  | tuple xs => some xs
  | set xs => some xs
  | map es => some (Entries.keys es)
  | frozenMap es => some (Entries.keys es)
  | view es => some (Entries.keys es)
  | config _ _ es => some (Entries.keys es)
  | str s => some (s.toList.map (fun c => str (String.ofList [c])))
  | bytes bs => some (bs.map (fun b => int (Int.ofNat b.toNat)))
  | labelled _ v => parts? v
  | _ => none

def parts (v : Value) : Except Misuse (List Value) :=
  match v.parts? with
  | some xs => .ok xs
  | none => .error (.notIterable v.qualifiedTypeName)

def hashable (v : Value) : Except Misuse Unit :=
  match v.unhashable? with
  | some name => .error (.unhashable name)
  | none => .ok ()

def asPair (place : Nat) (v : Value) : Except Misuse (Value × Value) :=
  match v.parts? with
  | none => .error (.pairNotSequence place)
  | some [k, x] => do
    hashable k
    pure (k, x)
  | some xs => .error (.pairLength place xs.length)

/-- Puts pairs into a map until one of them is none, and tells what was wrong with it. -/
def putPairs (es : Entries) (place : Nat) : List Value → Entries × Option Misuse
  | [] => (es, none)
  | x :: xs =>
    match asPair place x with
    | .error e => (es, some e)
    | .ok (k, v) => putPairs (Entries.put k v es) (place + 1) xs

def putFrom (es : Entries) (v : Value) : Entries × Option Misuse :=
  match v.mapping? with
  | some fs => (Entries.putAll es fs, none)
  | none =>
    match v.parts with
    | .error e => (es, some e)
    | .ok xs => putPairs es 0 xs

def toEntries (v : Value) : Except Misuse Entries :=
  match putFrom [] v with
  | (_, some e) => .error e
  | (es, none) => .ok es

end TopologyConfig.Value
