import TopologyConfig.Error
import TopologyConfig.Schema.Catalogue

/-!
Asking a registry by a value. A value that cannot be a key is an error, not an unknown key.
-/
namespace TopologyConfig

namespace Registry

def lookUp (r : Registry) (key : Value) : Except ConfigError (Option ConfigKey) := do
  (Value.hashable key).mapError .misuse
  pure (r.key? key)

/-- Entries accumulate under the value. A set is compared with the names, so it is never an error. -/
def accumulatesUnder (r : Registry) (key : Value) : Except ConfigError Bool :=
  match key.bare with
  | .set _ => .ok false
  | key => (r.lookUp key).map (·.any (·.accumulates))

def inspectUnder (r : Registry) (key value : Value) : Except ConfigError (Option Violation) := do
  let _ ← r.lookUp key
  (r.validate key value).mapError .numeral

def check (r : Registry) (key value : Value) : Except ConfigError Unit := do
  match ← r.inspectUnder key value with
  | none => pure ()
  | some v => .error (.violation v)

def violationsIn (r : Registry) (v : Value) : Except ConfigError (List Violation) :=
  match v.mapping? with
  | some es => (r.validateAll es).mapError .numeral
  | none => .error (.misuse (.lacksAttribute v "items"))

/-- Assigns to a field of a recognized key, which never succeeds. -/
def assignField (r : Registry) (key : Value) (field : String) : Except ConfigError Unit := do
  match ← r.lookUp key with
  | some _ => .error (.fixedField field)
  | none => .error (.misuse (.lacksAttribute .null field))

end Registry

namespace Catalogue

def constant (name : String) : Except ConfigError String :=
  match constant? name with
  | some key => .ok key
  | none => .error (.noConstant "stormconf.config.keys" name)

def declare (name : String) : Except ConfigError String :=
  match Registry.standard.find? name with
  | some _ => .error (.registry (.duplicate name))
  | none => .ok name

end Catalogue
end TopologyConfig
