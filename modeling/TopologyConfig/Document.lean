import TopologyConfig.ConfigMap.Seal
import TopologyConfig.Json.Printer
import TopologyConfig.Json.Reader
import TopologyConfig.Path
import TopologyConfig.Text.Case
import TopologyConfig.Value.Iteration
import TopologyConfig.Yaml.Printer
import TopologyConfig.Yaml.Reader

/-!
Documents: the serialized form of a configuration, a map with string keys as JSON or YAML. A text without
any content is the empty configuration.
-/
namespace TopologyConfig

inductive DocumentFormat where
  | json
  | yaml
deriving DecidableEq, Inhabited

namespace DocumentFormat

def name : DocumentFormat → String
  | json => "json"
  | yaml => "yaml"

def ofName (name : String) : Except ConfigError DocumentFormat :=
  let lowered := Text.lower name
  if lowered == "json" then .ok json
  else if lowered == "yaml" then .ok yaml
  else .error (.unsupportedFormat lowered)

def ofSuffix? (suffix : String) : Option DocumentFormat :=
  let lowered := Text.lower suffix
  if lowered == ".json" then some json
  else if lowered == ".yaml" || lowered == ".yml" then some yaml
  else none

def ofPath (path : String) : Except ConfigError DocumentFormat :=
  match ofSuffix? (Path.ofText path).suffix with
  | some f => .ok f
  | none => .error (.load (.unknownFormat path))

end DocumentFormat

namespace Document

/-- The value of a JSON text; of a blank one, null. -/
def readJson (source text : String) : Except ConfigError Value :=
  if Text.hasInk text then
    match Json.read text with
    | .ok v => .ok v
    | .error (.malformed f) => .error (.load (.malformedJson source f))
    | .error (.numeral e) => .error (.numeral e)
  else .ok .null

def readYaml (source text : String) : Except ConfigError Value :=
  match Yaml.read text with
  | .ok v => .ok v
  | .error .malformed => .error (.load (.malformedYaml source))
  | .error f => .error (.yaml f)

def readValue (format : DocumentFormat) (source text : String) : Except ConfigError Value :=
  match format with
  | .json => readJson source text
  | .yaml => readYaml source text

def badKeys (es : Entries) : List Value := (Entries.keys es).filter (fun k => !k.isString)

def rootEntries (source : String) (v : Value) : Except ConfigError Entries :=
  match v with
  | .null => .ok []
  | .map es =>
    match badKeys es with
    | [] => .ok es
    | keys =>
      if (Value.list keys).isWritable then .error (.load (.keysNotStrings source keys))
      else .error (.numeral .tooLongToWrite)
  | v => .error (.load (.rootNotMap source v.typeName))

def read (format : DocumentFormat) (source text : String) : Except ConfigError Entries := do
  rootEntries source (← readValue format source text)

def unnamed : String := "<string>"

def load (r : Registry) (format : DocumentFormat) (source text : String) : Except ConfigError ConfigMap := do
  ConfigMap.ofEntries r (← read format source text)

def writeValue (format : DocumentFormat) (v : Value) : Except ConfigError String :=
  match format with
  | .json => (Json.write v).mapError .notSerializable
  | .yaml =>
    match Yaml.write v with
    | .ok text => .ok text
    | .error .notRepresentable => .error .notRepresentable
    | .error (.numeral e) => .error (.numeral e)

def write (format : DocumentFormat) (v : Value) : Except ConfigError String := do
  let es ← (Value.toEntries v).mapError .misuse
  writeValue format (Value.map es).thaw

end Document

def ConfigMap.write (c : ConfigMap) (format : DocumentFormat) : Except ConfigError String :=
  Document.writeValue format c.toValue

end TopologyConfig
