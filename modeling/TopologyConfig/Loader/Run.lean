import TopologyConfig.Loader.Basic

/-!
Runs of a loader: what it is asked one after the other, while the files and the environment change.
-/
namespace TopologyConfig

structure LoaderRun where
  loader : Loader
  surroundings : Surroundings

inductive LoaderStep where
  | load (job : Value) (sealIt : Bool)
  | reload
  | defaultsLayer
  | clusterLayer
  | environmentLayer
  | clusterConfig
  | current
  | clusterPath
  | loadOnce (job : Value) (clusterPath : Option String)
  /-- Without a configuration, the current one is saved. -/
  | save (config : Option Value) (path : Option String)
  | write (config : Value) (path : String)
  | read (path : String)
  | loadFile (path : String)
  | putFile (path : String) (content : FileContent)
  | removeFile (path : String)
  | putVariables (changes : List (String × Option String))

inductive LoaderAnswer where
  | config (c : ConfigMap)
  | layer (es : Entries)
  | noConfig
  | document (es : Entries)
  | text (s : Option String)
  | done

namespace LoaderRun

open ConfigMap (Logged)

abbrev Outcome := Logged (LoaderRun × LoaderAnswer)

def start (clusterPath : Option String) (settings : Option Settings) (s : Surroundings) :
    Except ConfigError LoaderRun :=
  (Loader.start clusterPath settings s.environment).map (fun l => ⟨l, s⟩)

def looked (r : LoaderRun) (x : Logged LoaderAnswer) : Outcome := x.andThen (fun a => ⟨.ok (r, a), []⟩)

def loaded (r : LoaderRun) (x : Logged (Loader × ConfigMap)) : Outcome :=
  x.andThen (fun y => ⟨.ok ({ r with loader := y.1 }, .config y.2), []⟩)

def putFiles (r : LoaderRun) (t : FileTree) : LoaderRun :=
  { r with surroundings := { r.surroundings with files := t } }

def written (r : LoaderRun) (x : Logged Document.Written) : Outcome :=
  x.andThen (fun w => ⟨.ok (r.putFiles w.files, .text (some w.text)), []⟩)

def filed (r : LoaderRun) (x : Except FileError FileTree) : Outcome :=
  .silent ((x.mapError .file).map (fun t => (r.putFiles t, .done)))

def putVariables (e : Environment) : List (String × Option String) → Environment
  | [] => e
  | (name, text) :: rest => putVariables (e.put name text) rest

def perform (r : LoaderRun) (step : LoaderStep) : Outcome :=
  let l := r.loader
  let s := r.surroundings
  match step with
  | .load job sealIt => r.loaded (l.load s job sealIt)
  | .reload => r.loaded (l.reload s)
  | .defaultsLayer => r.looked (.silent ((l.defaultsLayer s).map .layer))
  | .clusterLayer => r.looked ((l.clusterLayer s).andThen (fun es => ⟨.ok (.layer es), []⟩))
  | .environmentLayer => r.looked (.silent ((Loader.environmentLayer s).map .layer))
  | .clusterConfig => r.looked ((l.clusterConfig s).andThen (fun c => ⟨.ok (.config c), []⟩))
  | .current =>
    r.looked ⟨.ok (match l.config with
      | some c => .config c
      | none => .noConfig), []⟩
  | .clusterPath => r.looked ⟨.ok (.text l.clusterPath), []⟩
  | .loadOnce job path => r.looked ((loadConfig s job path).andThen (fun c => ⟨.ok (.config c), []⟩))
  | .save config path => r.written (l.save s.files (config.getD l.configValue) path)
  | .write config path => r.written (.silent (Document.writeFile s.files (Path.ofText path) config))
  | .read path =>
    r.looked (.silent ((Document.readFile s.files (Path.ofText path)).map .document))
  | .loadFile path =>
    r.looked (.silent ((Document.loadFile Registry.standard s.files (Path.ofText path)).map .config))
  | .putFile path content => r.filed (s.files.create (Path.ofText path) content)
  | .removeFile path => r.filed (s.files.remove (Path.ofText path))
  | .putVariables changes =>
    ⟨.ok ({ r with surroundings := { s with environment := putVariables s.environment changes } },
      .done), []⟩

/-- The run after a step that has failed. Nothing has changed but for directories that were made on the way to a
document. -/
def failed (r : LoaderRun) : LoaderStep → LoaderRun
  | .save config path =>
    r.putFiles (r.loader.filesAfterFailure r.surroundings.files (config.getD r.loader.configValue) path)
  | .write config path => r.putFiles (Document.filesAfterFailure r.surroundings.files (Path.ofText path) config)
  | _ => r

def next (r : LoaderRun) (step : LoaderStep) : LoaderRun × Logged LoaderAnswer :=
  let x := r.perform step
  match x.result with
  | .ok (r, a) => (r, ⟨.ok a, x.logs⟩)
  | .error e => (r.failed step, ⟨.error e, x.logs⟩)

end LoaderRun
end TopologyConfig
