import TopologyConfig.Text.CaseTable

/-!
Lowering and raising the case of a text, by the full mappings: one character may become several, and
a capital sigma at the end of a word takes its final form.
-/
namespace TopologyConfig.Text

/-- A number lies in an odd run of the sorted boundaries. -/
def inRuns (bounds : Array Nat) (n : Nat) : Bool :=
  bounds.foldl (fun inside b => if b ≤ n then !inside else inside) false

namespace CaseRun

def contains (r : CaseRun) (n : Nat) : Bool :=
  r.first ≤ n && n ≤ r.last && (n - r.first) % r.step == 0

def apply (r : CaseRun) (n : Nat) : Nat := (Int.ofNat n + r.shift).toNat

end CaseRun

def mapCase (runs : Array CaseRun) (expansions : Array (Nat × List Nat)) (c : Char) : List Char :=
  match runs.find? (fun r => r.contains c.toNat) with
  | some r => [Char.ofNat (r.apply c.toNat)]
  | none =>
    match expansions.find? (fun e => e.1 == c.toNat) with
    | some e => e.2.map Char.ofNat
    | none => [c]

def lowerChar (c : Char) : List Char :=
  if c.toNat < 128 then [c.toLower] else mapCase lowerRuns lowerExpansions c

def upperChar (c : Char) : List Char :=
  if c.toNat < 128 then [c.toUpper] else mapCase upperRuns upperExpansions c

def meetsCased (cs : List Char) : Bool :=
  match cs.dropWhile (fun c => inRuns caseIgnorableBounds c.toNat) with
  | [] => false
  | c :: _ => inRuns casedBounds c.toNat

/-- Lowers a text whose earlier characters are given in reverse. -/
def lowerAfter (before : List Char) : List Char → List Char
  | [] => []
  | c :: rest =>
    let image :=
      if c == 'Σ' then [if meetsCased before && !meetsCased rest then 'ς' else 'σ']
      else lowerChar c
    image ++ lowerAfter (c :: before) rest

def lower (s : String) : String := String.ofList (lowerAfter [] s.toList)

def upper (s : String) : String := String.ofList (s.toList.flatMap upperChar)

end TopologyConfig.Text
