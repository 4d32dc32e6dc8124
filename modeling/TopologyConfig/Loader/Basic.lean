import TopologyConfig.ConfigMap.Merge
import TopologyConfig.Document.File
import TopologyConfig.Loader.Defaults
import TopologyConfig.Loader.Overrides
import TopologyConfig.Schema.Catalogue
import TopologyConfig.Settings

/-!
Loading a configuration in layers, from the lowest to the highest priority: the defaults, the cluster's
document, the environment variables and the settings of a job. The loader keeps the last configuration
that could be loaded and the job that it was loaded for.
-/
namespace TopologyConfig

structure Surroundings where
  files : FileTree
  environment : Environment
deriving Inhabited

structure Loader where
  settings : Settings
  /-- The path of the cluster's document; a missing or an empty one means that there is none. -/
  clusterPath : Option String
  config : Option ConfigMap := none
  job : Value := .null

namespace Loader

open ConfigMap (Logged)

def loggerName : String := "stormconf.config.config_loader"

def clusterVariable : String := Setting.variableStem ++ "CLUSTER_CONFIG"

def nonempty? (s : Option String) : Option String := s.filter (fun s => !s.isEmpty)

/-- A loader for the given document of the cluster, or for the one that the settings or the environment
name; without settings, those of the environment are taken. -/
def start (clusterPath : Option String) (settings : Option Settings) (e : Environment) :
    Except ConfigError Loader := do
  let settings ← match settings with
    | some s => .ok s
    | none => Settings.ofEnvironment e
  let path := nonempty? clusterPath <|> nonempty? settings.clusterDocument <|> e.get? clusterVariable
  .ok { settings := settings, clusterPath := path }

def defaultsLayer (l : Loader) (s : Surroundings) : Except ConfigError Entries :=
  match l.settings.defaults with
  | .builtIn => .ok Defaults.entries
  | .document path => Document.readFile s.files (Path.ofText path)

def skippedRecord (p : Path) : LogRecord :=
  ⟨.warning, loggerName, "Cluster configuration not found, skipping: " ++ p.text⟩

def clusterLayer (l : Loader) (s : Surroundings) : Logged Entries :=
  match nonempty? l.clusterPath with
  | none => ⟨.ok [], []⟩
  | some path =>
    let p := Path.ofText path
    match s.files.exists? p with
    | .error f => .failed (.file ⟨f, p.text⟩)
    | .ok false => ⟨.ok [], [skippedRecord p]⟩
    | .ok true => .silent (Document.readFile s.files p)

def environmentLayer (s : Surroundings) : Except ConfigError Entries := Override.entries s.environment

def layers (l : Loader) (s : Surroundings) : Logged (List Value) :=
  (Logged.silent (l.defaultsLayer s)).andThen (fun defaults =>
    (l.clusterLayer s).andThen (fun cluster =>
      .silent ((environmentLayer s).map (fun overrides =>
        [.map defaults, .map cluster, .map overrides]))))

def clusterConfig (l : Loader) (s : Surroundings) : Logged ConfigMap :=
  (l.layers s).andThen (ConfigMap.mergeLayers Registry.standard)

def assemble (l : Loader) (s : Surroundings) (job : Value) (sealIt : Bool) : Logged ConfigMap :=
  (l.layers s).andThen (fun layers =>
    (ConfigMap.mergeLayers Registry.standard (layers ++ [job])).andThen (fun c =>
      if sealIt then c.toSealed (!l.settings.failFast) else ⟨.ok c, []⟩))

def loadedRecord (l : Loader) (c : ConfigMap) : LogRecord :=
  ⟨.info, loggerName, "Configuration loaded with " ++ toString c.entries.length ++ " keys" ++
    (match nonempty? l.clusterPath with
    | some path => " (cluster: " ++ path ++ ")"
    | none => "")⟩

/-- Loads the configuration for a job. The loader that results holds it and remembers the job; if loading
fails there is no such loader, and the one before stays as it was. -/
def load (l : Loader) (s : Surroundings) (job : Value) (sealIt : Bool) : Logged (Loader × ConfigMap) :=
  (l.assemble s job sealIt).andThen (fun c =>
    ⟨.ok ({ l with config := some c, job := job }, c), [l.loadedRecord c]⟩)

def reload (l : Loader) (s : Surroundings) : Logged (Loader × ConfigMap) := l.load s l.job true

def savedRecord (path : String) : LogRecord :=
  ⟨.info, loggerName, "Configuration saved to " ++ path⟩

def save (l : Loader) (t : FileTree) (config : Value) (path : Option String) : Logged Document.Written :=
  match nonempty? path <|> nonempty? l.clusterPath with
  | none => .failed (.load .noPath)
  | some path =>
    (Logged.silent (Document.writeFile t (Path.ofText path) config)).andThen (fun w =>
      ⟨.ok w, [savedRecord path]⟩)

def filesAfterFailure (l : Loader) (t : FileTree) (config : Value) (path : Option String) : FileTree :=
  match nonempty? path <|> nonempty? l.clusterPath with
  | none => t
  | some path => Document.filesAfterFailure t (Path.ofText path) config

def configValue (l : Loader) : Value :=
  match l.config with
  | some c => c.asLayer
  | none => .null

end Loader

def loadConfig (s : Surroundings) (job : Value) (clusterPath : Option String) :
    ConfigMap.Logged ConfigMap :=
  (ConfigMap.Logged.silent (Loader.start clusterPath none s.environment)).andThen (fun l =>
    (l.load s job true).andThen (fun r => ⟨.ok r.2, []⟩))

end TopologyConfig
