import TopologyConfig.ConfigMap.Seal

/-!
Merging layers of configuration. Later layers replace the values of earlier ones, except under
accumulator keys, whose lists are concatenated in the order of the layers; there null adds nothing.
-/
namespace TopologyConfig.ConfigMap

/-- A value as a list of entries: null is none, a value that is no list is one. -/
def asEntries (v : Value) : List Value :=
  match v, v.listItems? with
  | .null, _ => []
  | _, some xs => xs
  | v, none => [v]

def mergeEntry (c : ConfigMap) (key value : Value) : Except ConfigError ConfigMap :=
  if c.registry.isAccumulator key then
    match value with
    | .null => (c.setDefault key .null).map (·.2)
    | value => do
      let held ← c.getD key .null
      c.set key (.list (asEntries held ++ asEntries value.thaw))
  else c.set key value

def mergeEntries (c : ConfigMap) : Entries → Except ConfigError ConfigMap
  | [] => .ok c
  | (k, v) :: es => do mergeEntries (← c.mergeEntry k v) es

def mergeRecord (overlay base : Entries) : LogRecord :=
  debugRecord ("Merged " ++ toString overlay.length ++ " overlay keys onto " ++ toString base.length ++
    " base keys")

def merge (r : Registry) (base overlay : Value) : Logged ConfigMap :=
  match ofValue r base with
  | .error e => .failed e
  | .ok c =>
    match overlay.mapping? with
    | none => .failed (.misuse (.lacksAttribute overlay "items"))
    | some es =>
      match mergeEntries c es, base.mapping? with
      | .error e, _ => .failed e
      | .ok _, none => .failed (.misuse (.noLength base.qualifiedTypeName))
      | .ok c, some fs => ⟨.ok c, [mergeRecord es fs]⟩

def asLayer (c : ConfigMap) : Value := .config none c.isSealed c.entries

def mergeLayer (c : ConfigMap) : Value → Logged ConfigMap
  | .null => ⟨.ok c, []⟩
  | layer => merge c.registry c.asLayer layer

def mergeOnto (c : ConfigMap) : List Value → Logged ConfigMap
  | [] => ⟨.ok c, []⟩
  | layer :: layers => (c.mergeLayer layer).andThen (fun c => mergeOnto c layers)

/-- Merges layers from the lowest to the highest priority into a new open map. -/
def mergeLayers (r : Registry) (layers : List Value) : Logged ConfigMap := (empty r).mergeOnto layers

end TopologyConfig.ConfigMap
