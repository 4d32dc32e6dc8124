import TopologyConfig.Environment
import TopologyConfig.Error
import TopologyConfig.Text.Blank
import TopologyConfig.Text.Case

/-!
The layer of configuration that environment variables give. Each variable stands for one key and is
converted to the kind of value that the key holds.
-/
namespace TopologyConfig

inductive OverrideKind where
  | text
  | whole
  | flag
  | texts
  | wholes
deriving DecidableEq

structure Override where
  variableName : String
  key : String
  kind : OverrideKind

namespace Override

def all : List Override := [
  ⟨"STORM_ZOOKEEPER_SERVERS", "storm.zookeeper.servers", .texts⟩,
  ⟨"STORM_ZOOKEEPER_PORT", "storm.zookeeper.port", .whole⟩,
  ⟨"STORM_LOCAL_DIR", "storm.local.dir", .text⟩,
  ⟨"STORM_LOCAL_HOSTNAME", "storm.local.hostname", .text⟩,
  ⟨"STORM_NIMBUS_HOST", "nimbus.host", .text⟩,
  ⟨"STORM_NIMBUS_THRIFT_PORT", "nimbus.thrift.port", .whole⟩,
  ⟨"STORM_SUPERVISOR_SLOTS_PORTS", "supervisor.slots.ports", .wholes⟩,
  ⟨"STORM_TOPOLOGY_WORKERS", "topology.workers", .whole⟩,
  ⟨"STORM_TOPOLOGY_DEBUG", "topology.debug", .flag⟩,
  ⟨"STORM_ADAPTIVE_SCHEDULER_ENABLED", "adaptivescheduler.enabled", .flag⟩]

def readWhole (text : String) : Except VariableFault Int :=
  (Numeral.read 10 (Text.trimmed text)).mapError .numeral

def yesWords : List String := ["1", "true", "yes", "on"]

def noWords : List String := ["0", "false", "no", "off"]

def readFlag (text : String) : Except VariableFault Bool :=
  let word := Text.lower (Text.trimmed text)
  if yesWords.contains word then .ok true
  else if noWords.contains word then .ok false
  else .error (.notBoolean text)

/-- The items between the commas, without the blanks around them; a blank item does not count. -/
def readTexts (text : String) : List String :=
  ((Text.splitAt ',' text.toList).filterMap (fun item =>
    match Text.trim item with
    | [] => none
    | cs => some (String.ofList cs)))

def readWholes (text : String) : Except VariableFault (List Int) :=
  (readTexts text).mapM (fun item => (Numeral.read 10 item).mapError .numeral)

def convert (kind : OverrideKind) (text : String) : Except VariableFault Value :=
  match kind with
  | .text => .ok (.str text)
  | .whole => (readWhole text).map Value.int
  | .flag => (readFlag text).map Value.bool
  | .texts => .ok (.list ((readTexts text).map Value.str))
  | .wholes => (readWholes text).map (fun ns => .list (ns.map Value.int))

def entry? (o : Override) (e : Environment) : Except ConfigError (Option (Value × Value)) :=
  match e.text? o.variableName with
  | none => .ok none
  | some text =>
    match convert o.kind text with
    | .ok v => .ok (some (.str o.key, v))
    | .error f => .error (.load (.badVariable o.variableName o.key f))

def entriesOf (e : Environment) : List Override → Except ConfigError Entries
  | [] => .ok []
  | o :: rest => do
    let entry ← o.entry? e
    let others ← entriesOf e rest
    .ok (entry.toList ++ others)

def entries (e : Environment) : Except ConfigError Entries := entriesOf e all

end Override
end TopologyConfig
