import TopologyConfig.ConfigMap.Basic
import TopologyConfig.Logging.Record

/-!
Sealing and copying. A map is sealed once every recognized key holds a valid value; its entries are then
frozen. Copies are made from the plain entries, and a copy of a sealed map is validated and sealed again.
-/
namespace TopologyConfig.ConfigMap

def loggerName : String := "stormconf.config.store"

def debugRecord (message : String) : LogRecord := ⟨.debug, loggerName, message⟩

def violationRecord (v : Violation) : LogRecord :=
  ⟨.warning, loggerName, "Schema violation: " ++ v.message⟩

structure Logged (α : Type) where
  result : Except ConfigError α
  logs : List LogRecord

namespace Logged

def failed (e : ConfigError) : Logged α := ⟨.error e, []⟩

def silent (r : Except ConfigError α) : Logged α := ⟨r, []⟩

def andThen (x : Logged α) (f : α → Logged β) : Logged β :=
  match x.result with
  | .error e => ⟨.error e, x.logs⟩
  | .ok a =>
    let y := f a
    ⟨y.result, x.logs ++ y.logs⟩

end Logged

def frozen (c : ConfigMap) : ConfigMap :=
  { c with entries := Value.freezeEntries c.entries, isSealed := true }

def sealRecord (c : ConfigMap) : LogRecord :=
  debugRecord ("Sealed configuration with " ++ toString c.entries.length ++ " keys")

/-- Freezes the map if no key is invalid. The violations are reported all at once or, without `collect`,
only the first one; each one that is found is logged. -/
def toSealed (c : ConfigMap) (collect : Bool) : Logged ConfigMap :=
  if c.isSealed then ⟨.ok c, []⟩
  else
    let i := c.registry.inspect c.entries
    match i.found, i.stopped with
    | [], none => ⟨.ok c.frozen, [c.sealRecord]⟩
    | [], some e => ⟨.error (.numeral e), []⟩
    | v :: vs, stopped =>
      if collect then
        let logs := (v :: vs).map violationRecord
        match stopped with
        | some e => ⟨.error (.numeral e), logs⟩
        | none => ⟨.error (.invalid (v :: vs)), logs⟩
      else ⟨.error (.violation v), [violationRecord v]⟩

def copy (c : ConfigMap) : Except ConfigError ConfigMap := ofEntries c.registry c.entries

def rebuild (r : Registry) (es : Entries) (sealIt : Bool) : Logged ConfigMap :=
  match ofEntries r es with
  | .error e => .failed e
  | .ok c => if sealIt then c.toSealed true else ⟨.ok c, []⟩

def deepCopy (c : ConfigMap) : Logged ConfigMap := rebuild c.registry c.plainEntries c.isSealed

end TopologyConfig.ConfigMap
