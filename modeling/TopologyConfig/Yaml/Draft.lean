import TopologyConfig.Value.Entries
import TopologyConfig.Yaml.Node
import TopologyConfig.Yaml.ScalarValue

/-!
Drafts of values. A draft is a document's tree with every scalar read and every merge carried out. Its
faults are met level by level, each level from left to right, and the first one is the document's; a draft
without faults is built into a value.
-/
namespace TopologyConfig.Yaml

inductive Draft where
  | failed (f : Fault)
  | ready (v : Value)
  | list (items : List Draft)
  | map (entries : List (Draft × Draft))
  | set (entries : List (Draft × Draft))
  | pairs (entries : List (Draft × Draft))
  /-- A collection whose fault is met after some of its parts. -/
  | broken (parts : List Draft) (f : Fault)

namespace Node

def tag : Node → Tag
  | scalar t _ => t
  | sequence t _ => t
  | mapping t _ => t

def keyTag (n : Node) : Tag := if n.tag = .value then .str else n.tag

mutual

def text? : Node → Option String
  | scalar _ text => some text
  | sequence _ _ => none
  | mapping _ es => defaultText? es

def defaultText? : List (Node × Node) → Option String
  | [] => none
  | (k, v) :: es => if k.tag = .value then text? v else defaultText? es

end

end Node

namespace Draft

def ofResult : Except Fault Value → Draft
  | .ok v => ready v
  | .error f => failed f

def ofScalar (t : Tag) (text : String) : Draft :=
  match t with
  | .seq => broken [] .malformed
  | .map => broken [] .malformed
  | .set => broken [] .malformed
  | .orderedMap => broken [] .malformed
  | .pairs => broken [] .malformed
  | t => ofResult (t.valueOf text)

def ofDefault (t : Tag) (text? : Option String) : Draft :=
  match text?, t with
  | none, _ => failed .malformed
  | some _, .timestamp => failed .timestampNotText
  | some text, t => ofResult (t.valueOf text)

/-- The entries of a mapping once its merges are carried out: the merged ones come first. -/
structure Flat where
  merged : List (Draft × Draft)
  own : List (Draft × Draft)

def Flat.all (f : Flat) : List (Draft × Draft) := f.merged ++ f.own

structure PairList where
  entries : List (Draft × Draft)
  complete : Bool

def PairList.draft (p : PairList) : Draft :=
  if p.complete then pairs p.entries
  else broken (p.entries.flatMap (fun e => [e.1, e.2])) .malformed

def ofFlat (wrap : List (Draft × Draft) → Draft) : Except Fault Flat → Draft
  | .ok f => wrap f.all
  | .error f => broken [] f

mutual

def ofNode (t : Tag) : Node → Draft
  | .scalar _ text => ofScalar t text
  | .sequence _ items =>
    match t with
    | .seq => list (ofItems items)
    | .orderedMap => (pairsOf items).draft
    | .pairs => (pairsOf items).draft
    | .map => broken [] .malformed
    | .set => broken [] .malformed
    | _ => failed .malformed
  | .mapping own es =>
    match t with
    | .map => ofFlat map (flatten es)
    | .set => ofFlat set (flatten es)
    | .seq => broken [] .malformed
    | .orderedMap => broken [] .malformed
    | .pairs => broken [] .malformed
    | t => ofDefault t (Node.mapping own es).text?

def ofItems : List Node → List Draft
  | [] => []
  | n :: ns => ofNode n.tag n :: ofItems ns

def pairsOf : List Node → PairList
  | [] => ⟨[], true⟩
  | n :: ns =>
    match pairOf n with
    | none => ⟨[], false⟩
    | some e =>
      let rest := pairsOf ns
      { rest with entries := e :: rest.entries }

def pairOf : Node → Option (Draft × Draft)
  | .mapping _ es => onlyEntry es
  | _ => none

def onlyEntry : List (Node × Node) → Option (Draft × Draft)
  | [] => none
  | (k, v) :: es => if es.isEmpty then some (ofNode k.tag k, ofNode v.tag v) else none

def flatten : List (Node × Node) → Except Fault Flat
  | [] => .ok ⟨[], []⟩
  | (k, v) :: es =>
    if k.tag = .merge then do
      let source ← mergeSource v
      let rest ← flatten es
      pure ⟨source ++ rest.merged, rest.own⟩
    else do
      let rest ← flatten es
      pure ⟨rest.merged, (ofNode k.keyTag k, ofNode v.tag v) :: rest.own⟩

/-- The entries that a merge takes in: those of a mapping, or those of several, the last one first. -/
def mergeSource : Node → Except Fault (List (Draft × Draft))
  | .mapping _ es => do pure (← flatten es).all
  | .sequence _ ns => do pure (← mergeSources ns).reverse.flatten
  | .scalar _ _ => .error .malformed

def mergeSources : List Node → Except Fault (List (List (Draft × Draft)))
  | [] => .ok []
  | n :: ns => do
    let first ← oneSource n
    let rest ← mergeSources ns
    pure (first :: rest)

def oneSource : Node → Except Fault (List (Draft × Draft))
  | .mapping _ es => do pure (← flatten es).all
  | _ => .error .malformed

end

/-- A part that is met: its fault, or the part itself if it is a collection that is gone through later. -/
def meet : Draft → Except Fault (List Draft)
  | failed f => .error f
  | ready _ => .ok []
  | d => .ok [d]

def meetKey : Draft → Except Fault Unit
  | failed f => .error f
  | ready _ => .ok ()
  | _ => .error .malformed

def meetAll (ds : List Draft) : Except Fault (List Draft) := do pure (← ds.mapM meet).flatten

def meetEntry (e : Draft × Draft) : Except Fault (List Draft) := do
  meetKey e.1
  meet e.2

def enter : Draft → Except Fault (List Draft)
  | list items => meetAll items
  | map es => do pure (← es.mapM meetEntry).flatten
  | set es => do pure (← es.mapM meetEntry).flatten
  | pairs es => meetAll (es.flatMap (fun e => [e.1, e.2]))
  | broken parts f => do
    let _ ← meetAll parts
    .error f
  | _ => .ok []

def checkLevels : Nat → List Draft → Except Fault Unit
  | 0, _ => .ok ()
  | fuel + 1, level => do
    let next ← level.mapM enter
    if next.flatten.isEmpty then pure () else checkLevels fuel next.flatten

mutual

def depth : Draft → Nat
  | list items => depthOf items + 1
  | map es => entriesDepth es + 1
  | set es => entriesDepth es + 1
  | pairs es => entriesDepth es + 1
  | broken parts _ => depthOf parts + 1
  | _ => 1

def depthOf : List Draft → Nat
  | [] => 0
  | d :: ds => max (depth d) (depthOf ds)

def entriesDepth : List (Draft × Draft) → Nat
  | [] => 0
  | (k, v) :: es => max (max (depth k) (depth v)) (entriesDepth es)

end

def check (d : Draft) : Except Fault Unit := do
  let level ← meet d
  checkLevels d.depth level

mutual

def value : Draft → Value
  | failed _ => .null
  | ready v => v
  | list items => .list (values items)
  | map es => .map (Entries.ofPairs (entryValues es))
  | set es => .set (Entries.keys (Entries.ofPairs (entryValues es)))
  | pairs es => .list ((entryValues es).map (fun e => .tuple [e.1, e.2]))
  | broken _ _ => .null

def values : List Draft → List Value
  | [] => []
  | d :: ds => value d :: values ds

def entryValues : List (Draft × Draft) → List (Value × Value)
  | [] => []
  | (k, v) :: es => (value k, value v) :: entryValues es

end

end Draft
end TopologyConfig.Yaml
