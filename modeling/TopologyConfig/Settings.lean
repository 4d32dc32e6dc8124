import TopologyConfig.Environment
import TopologyConfig.Error
import TopologyConfig.Logging.Record
import TopologyConfig.Path
import TopologyConfig.Text.Case
import TopologyConfig.Text.Utf8

/-!
The settings of a client: how it logs, where its documents are and how sealing reports violations. They
are read from values of many kinds: a flag, for instance, may be given as a word. A value that cannot be
read leaves the settings as they were.
-/
namespace TopologyConfig

inductive DefaultsSource where
  | builtIn
  | document (path : String)
deriving DecidableEq, Inhabited

structure Settings where
  /-- The level of logging that was chosen, if one was; else it is `INFO`. -/
  chosenLevel : Option LogLevel := none
  logsJson : Bool := false
  logsToFile : Bool := false
  logFile : String := "logs/stormconf.log"
  defaults : DefaultsSource := .builtIn
  clusterDocument : Option String := none
  failFast : Bool := false
deriving DecidableEq, Inhabited

inductive Setting where
  | logLevel
  | logJson
  | logToFile
  | logFilePath
  | defaultsPath
  | clusterConfigPath
  | failFast
deriving DecidableEq

namespace Setting

def name : Setting → String
  | logLevel => "log_level"
  | logJson => "log_json"
  | logToFile => "log_to_file"
  | logFilePath => "log_file_path"
  | defaultsPath => "defaults_path"
  | clusterConfigPath => "cluster_config_path"
  | failFast => "fail_fast"

def all : List Setting :=
  [logLevel, logJson, logToFile, logFilePath, defaultsPath, clusterConfigPath, failFast]

def ofName? (s : String) : Option Setting := all.find? (·.name == s)

def variableStem : String := "STORMCONF_"

def variableName (s : Setting) : String := variableStem ++ Text.upper s.name

end Setting

namespace Settings

def level (s : Settings) : LogLevel := s.chosenLevel.getD .info

def plainLower (s : String) : String := String.ofList (s.toList.map Char.toLower)

def yesWords : List String := ["1", "t", "y", "on", "yes", "true"]

def noWords : List String := ["0", "f", "n", "off", "no", "false"]

def flagOfWord (s : String) : Except FaultCause Bool :=
  if noWords.contains (plainLower s) then .ok false
  else if yesWords.contains (plainLower s) then .ok true
  else .error .unreadableBoolean

def flagOfInt (n : Int) : Except FaultCause Bool :=
  if n == 0 then .ok false else if n == 1 then .ok true else .error .unreadableBoolean

def readFlag : Value → Except FaultCause Bool
  | .bool b => .ok b
  | .str s => flagOfWord s
  | .bytes bs =>
    match Text.decodeUtf8 bs with
    | .ok s => flagOfWord s
    | .error _ => .error .unreadableBoolean
  | .int n => if Numeral.isWord64 n then flagOfInt n else .error .notBoolean
  | .float x =>
    match x.toInt? with
    | some n => if Numeral.isWord64 n && Numeral.isWord64 (n - 1) then flagOfInt n else .error .notBoolean
    | none => .error .notBoolean
  | _ => .error .notBoolean

def readText : Value → Except FaultCause String
  | .str s => .ok s
  | .bytes bs => (Text.decodeUtf8 bs).mapError (fun _ => .undecodable)
  | _ => .error .notString

def levelOfName (name : String) : Except FaultCause LogLevel :=
  match LogLevel.ofName? name with
  | some l => .ok l
  | none => .error (.notAmong (LogLevel.all.map LogLevel.name))

def readLevel : Value → Except FaultCause LogLevel
  | .str s => levelOfName (Text.upper s)
  | .bytes bs => levelOfName ((Text.decodeUtf8 bs).toOption.getD "")
  | _ => levelOfName ""

def documentSuffixes : List String := [".yaml", ".yml", ".json"]

def readDocumentPath (v : Value) : Except FaultCause String := do
  let path ← readText v
  if documentSuffixes.contains (Text.lower (Path.ofText path).suffix) then .ok path
  else .error (.rejected ("Configuration document must be .yaml, .yml or .json: " ++ path))

def readOptionalDocument : Value → Except FaultCause (Option String)
  | .null => .ok none
  | v => (readDocumentPath v).map some

def put (s : Settings) (setting : Setting) (v : Value) : Except FaultCause Settings :=
  match setting with
  | .logLevel => (readLevel v).map (fun l => { s with chosenLevel := some l })
  | .logJson => (readFlag v).map (fun b => { s with logsJson := b })
  | .logToFile => (readFlag v).map (fun b => { s with logsToFile := b })
  | .logFilePath => (readText v).map (fun t => { s with logFile := t })
  | .defaultsPath => (readDocumentPath v).map (fun p => { s with defaults := .document p })
  | .clusterConfigPath => (readOptionalDocument v).map (fun p => { s with clusterDocument := p })
  | .failFast => (readFlag v).map (fun b => { s with failFast := b })

def putGiven (given : Setting → Option Value) (s : Settings) : List Setting → Settings × List Fault
  | [] => (s, [])
  | setting :: rest =>
    match given setting with
    | none => putGiven given s rest
    | some v =>
      match s.put setting v with
      | .ok s => putGiven given s rest
      | .error cause =>
        let (s, faults) := putGiven given s rest
        (s, ⟨[setting.name], cause⟩ :: faults)

def ofGiven (given : Setting → Option Value) : Except ConfigError Settings :=
  match putGiven given {} Setting.all with
  | (s, []) => .ok s
  | (_, faults) => .error (.faults faults)

def ofValues (values : List (String × Value)) : Except ConfigError Settings :=
  ofGiven (fun setting => values.lookup setting.name)

def ofEnvironment (e : Environment) : Except ConfigError Settings :=
  ofGiven (fun setting => (e.text? setting.variableName).map Value.str)

/-- Gives the setting of a name a new value. A name that begins with an underscore is free for other uses
and changes nothing. -/
def assign (s : Settings) (name : String) (v : Value) : Except ConfigError Settings :=
  if name.startsWith "_" then .ok s
  else
    match Setting.ofName? name with
    | none => .error (.faults [⟨[name], .noSuchSetting name⟩])
    | some setting => (s.put setting v).mapError (fun cause => .faults [⟨[name], cause⟩])

end Settings
end TopologyConfig
