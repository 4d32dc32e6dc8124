import TopologyConfig.Error
import TopologyConfig.Value.Freeze

/-!
Configuration maps: ordered maps from strings to plain values that are open to changes until they are
sealed. Values are thawed on their way in, so a map shares nothing with its callers. An operation that
fails leaves the map as it was; only an update may stop half way.
-/
namespace TopologyConfig

structure ConfigMap where
  registry : Registry
  entries : Entries
  isSealed : Bool
deriving Inhabited

namespace ConfigMap

def empty (r : Registry) : ConfigMap := ⟨r, [], false⟩

def ensureOpen (c : ConfigMap) : Except ConfigError Unit :=
  if c.isSealed then .error .sealedMap else .ok ()

def hashable (key : Value) : Except ConfigError Unit := (Value.hashable key).mapError .misuse

def find? (c : ConfigMap) (key : Value) : Except ConfigError (Option Value) := do
  hashable key
  pure (Entries.get? c.entries key)

def get (c : ConfigMap) (key : Value) : Except ConfigError Value := do
  match ← c.find? key with
  | some v => pure v
  | none => .error (.missingKey key)

def getD (c : ConfigMap) (key default : Value) : Except ConfigError Value := do
  pure ((← c.find? key).getD default)

def contains (c : ConfigMap) (key : Value) : Except ConfigError Bool := do
  pure (← c.find? key).isSome

def set (c : ConfigMap) (key value : Value) : Except ConfigError ConfigMap := do
  c.ensureOpen
  if key.isString then pure { c with entries := Entries.put key value.thaw c.entries }
  else .error (.keyNotString key.typeName)

def remove (c : ConfigMap) (key : Value) : Except ConfigError ConfigMap := do
  c.ensureOpen
  let _ ← c.get key
  pure { c with entries := Entries.remove key c.entries }

def clear (c : ConfigMap) : Except ConfigError ConfigMap := do
  c.ensureOpen
  pure { c with entries := [] }

/-- Takes the value of a key out of the map; a missing key yields the default, if there is one. -/
def pop (c : ConfigMap) (key : Value) (default? : Option Value) : Except ConfigError (Value × ConfigMap) := do
  match ← c.find? key, default? with
  | some v, _ => pure (v, ← c.remove key)
  | none, some d => pure (d, c)
  | none, none => .error (.missingKey key)

def popFirst (c : ConfigMap) : Except ConfigError (Value × Value × ConfigMap) :=
  match c.entries with
  | [] => .error .nothingToPop
  | (k, v) :: _ => do pure (k, v, ← c.remove k)

def setDefault (c : ConfigMap) (key default : Value) : Except ConfigError (Value × ConfigMap) := do
  match ← c.find? key with
  | some v => pure (v, c)
  | none => pure (default, ← c.set key default)

def unpack (v : Value) : Except Misuse (Value × Value) :=
  match v.parts? with
  | none => .error (.notUnpackable v.qualifiedTypeName)
  | some [k, x] => .ok (k, x)
  | some xs => if xs.length < 2 then .error (.tooFewToUnpack xs.length) else .error .tooManyToUnpack

inductive Assignment where
  | entry (key value : Value)
  | element (v : Value)
  | failure (e : Misuse)

def assignments (v : Value) : List Assignment :=
  match v.mapping?, v.parts with
  | some es, _ => es.map (fun e => .entry e.1 e.2)
  | none, .ok xs => xs.map .element
  | none, .error e => [.failure e]

def assign (c : ConfigMap) : Assignment → Except ConfigError ConfigMap
  | .entry k v => c.set k v
  | .element v =>
    match unpack v with
    | .ok (k, x) => c.set k x
    | .error e => .error (.misuse e)
  | .failure e => .error (.misuse e)

def assignAll (c : ConfigMap) : List Assignment → ConfigMap × Option ConfigError
  | [] => (c, none)
  | a :: rest =>
    match c.assign a with
    | .ok c => assignAll c rest
    | .error e => (c, some e)

/-- Stores the entries of a mapping, or a sequence of pairs. Those before a failing one stay. -/
def update (c : ConfigMap) (v : Value) : ConfigMap × Option ConfigError := c.assignAll (assignments v)

def ofEntries (r : Registry) (es : Entries) : Except ConfigError ConfigMap :=
  match (empty r).assignAll (es.map (fun e => .entry e.1 e.2)) with
  | (c, none) => .ok c
  | (_, some e) => .error e

/-- An open map with the entries of a mapping; null stands for no entries. -/
def ofValue (r : Registry) (v : Value) : Except ConfigError ConfigMap :=
  match v, v.mapping? with
  | .null, _ => .ok (empty r)
  | _, some es => ofEntries r es
  | v, none => .error (.misuse (.lacksAttribute v "items"))

def plainEntries (c : ConfigMap) : Entries := Value.thawEntries c.entries

def toValue (c : ConfigMap) : Value := .map c.plainEntries

/-- The map has the entries of a mapping, in any order. -/
def equals (c : ConfigMap) (v : Value) : Bool := Value.sameMapping c.entries v.mapping?

def shown (c : ConfigMap) : Except ConfigError String :=
  (Value.config none c.isSealed c.entries).shown.mapError .numeral

def validate (c : ConfigMap) : Except ConfigError (List Violation) :=
  (c.registry.validateAll c.entries).mapError .numeral

end ConfigMap
end TopologyConfig
