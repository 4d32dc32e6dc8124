import TopologyConfig.Value.Basic

/-!
Freezing and thawing. A frozen value rejects every change in place; thawing gives the plain value back,
with tuples as lists and every mapping as a map. The lists and maps of the result are new and bear no
labels; a set is not frozen, so it keeps its label until it is thawed.
-/
namespace TopologyConfig.Value

mutual

def freeze : Value → Value
  | list xs => frozenList (freezeItems xs)
  | frozenList xs => frozenList (freezeItems xs)
  | tuple xs => frozenList (freezeItems xs)
  | map es => frozenMap (freezeEntries es)
  | frozenMap es => frozenMap (freezeEntries es)
  | labelled label (set xs) => labelled label (set xs)
  | labelled _ v => freeze v
  | v => v

def freezeItems : List Value → List Value
  | [] => []
  | x :: xs => freeze x :: freezeItems xs

def freezeEntries : List (Value × Value) → List (Value × Value)
  | [] => []
  | (k, v) :: es => (k, freeze v) :: freezeEntries es

end

mutual

/-- The plain form of a value: lists for lists and tuples, maps for mappings, at every depth. Of the orders in which
the copy of a set may be listed it has the one of the set. -/
def thaw : Value → Value
  | list xs => list (thawItems xs)
  | frozenList xs => list (thawItems xs)
  | tuple xs => list (thawItems xs)
  | map es => map (thawEntries es)
  | frozenMap es => map (thawEntries es)
  | view es => map (thawEntries es)
  | config _ _ es => map (thawEntries es)
  | labelled _ v => thaw v
  | v => v

def thawItems : List Value → List Value
  | [] => []
  | x :: xs => thaw x :: thawItems xs

def thawEntries : List (Value × Value) → List (Value × Value)
  | [] => []
  | (k, v) :: es => (k, thaw v) :: thawEntries es

end

/-- A deep copy: frozen lists and maps come back thawed, and a view cannot be copied. -/
def deepCopy? (v : Value) : Option Value :=
  match v.bare with
  | frozenList xs => some (list (thawItems xs))
  | frozenMap es => some (map (thawEntries es))
  | view _ => none
  | v => some v

def isOwnCopy : Value → Bool
  | null => true
  | bool _ => true
  | int _ => true
  | float _ => true
  | str _ => true
  | bytes _ => true
  | classRef _ _ => true
  | frozenList _ => true
  | frozenMap _ => true
  | tuple _ => true
  | _ => false

end TopologyConfig.Value
