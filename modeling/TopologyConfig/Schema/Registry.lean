import TopologyConfig.Schema.Violation

/-!
The registry of recognized keys. Keys that it does not know are always valid, and null is valid under
every key.
-/
namespace TopologyConfig

/-- A recognized key and the shape of its values; without a shape every value is valid. -/
structure ConfigKey where
  name : String
  shape : Option Shape
  doc : String
  accumulates : Bool
deriving Inhabited

namespace ConfigKey

def element? (k : ConfigKey) : Option Shape := k.shape.bind Shape.element?

end ConfigKey

inductive RegistryError where
  | duplicate (name : String)
  | notList (name : String)

namespace RegistryError

def message : RegistryError → String
  | duplicate name => "Duplicate configuration key: " ++ name
  | notList name => "Accumulating key '" ++ name ++ "' needs a list validator"

end RegistryError

/-- A table of keys with distinct names. Registries of the same table are told apart by their number. -/
structure Registry where
  keys : List ConfigKey
  number : Nat
deriving Inhabited

namespace Registry

def fault? (seen : List String) : List ConfigKey → Option RegistryError
  | [] => none
  | k :: ks =>
    if seen.contains k.name then some (.duplicate k.name)
    else if k.accumulates && k.element?.isNone then some (.notList k.name)
    else fault? (k.name :: seen) ks

def ofKeys (number : Nat) (keys : List ConfigKey) : Except RegistryError Registry :=
  match fault? [] keys with
  | some e => .error e
  | none => .ok ⟨keys, number⟩

def find? (r : Registry) (name : String) : Option ConfigKey := r.keys.find? (·.name == name)

def key? (r : Registry) : Value → Option ConfigKey
  | .str name => r.find? name
  | _ => none

def shape? (r : Registry) (key : Value) : Option Shape := (r.key? key).bind (·.shape)

def element? (r : Registry) (key : Value) : Option Shape := (r.key? key).bind (·.element?)

def isAccumulator (r : Registry) (key : Value) : Bool := (r.key? key).any (·.accumulates)

def names (r : Registry) : List String := r.keys.map (·.name)

def accumulatorNames (r : Registry) : List String := (r.keys.filter (·.accumulates)).map (·.name)

def allows (r : Registry) (key value : Value) : Bool :=
  match r.shape? key, value with
  | none, _ => true
  | some _, .null => true
  | some s, v => s.accepts v

def violation? (r : Registry) (key value : Value) : Option Violation :=
  if r.allows key value then none
  else (r.shape? key).map (fun s => { key := key, expected := s.description, value := value })

def validate (r : Registry) (key value : Value) : Except NumeralError (Option Violation) :=
  match r.violation? key value with
  | none => .ok none
  | some v => v.checked.map some

/-- The violations found in order, up to the first one that cannot be written. -/
structure Inspection where
  found : List Violation
  stopped : Option NumeralError

def inspect (r : Registry) : Entries → Inspection
  | [] => ⟨[], none⟩
  | (key, value) :: es =>
    match r.validate key value with
    | .error e => ⟨[], some e⟩
    | .ok none => inspect r es
    | .ok (some v) =>
      let rest := inspect r es
      ⟨v :: rest.found, rest.stopped⟩

def validateAll (r : Registry) (es : Entries) : Except NumeralError (List Violation) :=
  let i := r.inspect es
  match i.stopped with
  | some e => .error e
  | none => .ok i.found

end Registry
end TopologyConfig
