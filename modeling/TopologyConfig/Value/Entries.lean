import TopologyConfig.Value.Equality

/-!
The entries of a map: every key once, in the order of its first insertion.
-/
namespace TopologyConfig.Entries

def get? (es : Entries) (key : Value) : Option Value :=
  (es.find? (fun e => e.1.same key)).map (·.2)

def contains (es : Entries) (key : Value) : Bool := es.any (fun e => e.1.same key)

/-- Replaces the value of a key in its place, or adds the key at the end. -/
def put (key value : Value) : Entries → Entries
  | [] => [(key, value)]
  | (k, v) :: es => if k.same key then (k, value) :: es else (k, v) :: put key value es

def remove (key : Value) : Entries → Entries
  | [] => []
  | (k, v) :: es => if k.same key then es else (k, v) :: remove key es

def putAll (es : Entries) (pairs : List (Value × Value)) : Entries :=
  pairs.foldl (fun es e => put e.1 e.2 es) es

def ofPairs (pairs : List (Value × Value)) : Entries := putAll [] pairs

def keys (es : Entries) : List Value := es.map (·.1)

end TopologyConfig.Entries
