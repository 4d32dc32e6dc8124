import TopologyConfig.Loader.Run
import TopologyConfig.Proofs.ConfigMap.Layers

/-!
What a loader remembers. Over any run it holds the result of the last load or reload that succeeded, and the job of
the last load that succeeded, whatever failed in between and however the documents and the environment changed.
-/
namespace TopologyConfig

open ConfigMap (Logged)

/-- What goes on from a result succeeds exactly if both parts do. -/
theorem ConfigMap.Logged.andThen_eq_ok {α β : Type} {x : Logged α} {f : α → Logged β} {b : β} :
    (x.andThen f).result = .ok b ↔ ∃ a, x.result = .ok a ∧ (f a).result = .ok b := by
  unfold Logged.andThen
  cases x.result <;> simp

namespace LoaderRun

/-- A call, and the files and the environment variables that it finds. -/
structure Call where
  surroundings : Surroundings
  step : LoaderStep

/-- A call that was made, and its answer. -/
structure Event where
  step : LoaderStep
  answer : Except ConfigError LoaderAnswer

/-- The run with other files and environment variables. -/
def amid (r : LoaderRun) (s : Surroundings) : LoaderRun := { r with surroundings := s }

def call (r : LoaderRun) (c : Call) : LoaderRun × Event :=
  let x := (r.amid c.surroundings).next c.step
  (x.1, ⟨c.step, x.2.result⟩)

/-- Makes calls one after the other. -/
def callAll (r : LoaderRun) : List Call → LoaderRun × List Event
  | [] => (r, [])
  | c :: cs =>
    let x := r.call c
    let y := x.1.callAll cs
    (y.1, x.2 :: y.2)

namespace Event

/-- The configuration that a load or a reload gave. -/
def config? : Event → Option ConfigMap
  | ⟨.load _ _, .ok (.config c)⟩ => some c
  | ⟨.reload, .ok (.config c)⟩ => some c
  | _ => none

/-- The job that a configuration was loaded for. -/
def job? : Event → Option Value
  | ⟨.load job _, .ok _⟩ => some job
  | _ => none

end Event

/-- The result of the last load or reload that succeeded. -/
def lastConfig? (es : List Event) : Option ConfigMap := (es.filterMap Event.config?).getLast?

/-- The job of the last load that succeeded; null if none did. -/
def lastJob (es : List Event) : Value := (es.filterMap Event.job?).getLast?.getD .null

variable {r : LoaderRun} {step : LoaderStep} {x : LoaderRun × LoaderAnswer}

theorem loader_of_looked {y : Logged LoaderAnswer} (h : (r.looked y).result = .ok x) : x.1.loader = r.loader := by
  obtain ⟨a, -, ha⟩ := Logged.andThen_eq_ok.mp h
  cases ha
  rfl

theorem loader_of_written {y : Logged Document.Written} (h : (r.written y).result = .ok x) :
    x.1.loader = r.loader := by
  obtain ⟨w, -, hw⟩ := Logged.andThen_eq_ok.mp h
  cases hw
  rfl

theorem loader_of_filed {y : Except FileError FileTree} (h : (r.filed y).result = .ok x) : x.1.loader = r.loader := by
  obtain ⟨t, -, ht⟩ := map_eq_ok.mp h
  cases ht
  rfl

/-- A load that succeeds gives a configuration, and remembers it and its job. -/
theorem loader_of_loaded {job : Value} {sealIt : Bool}
    (h : (r.loaded (r.loader.load r.surroundings job sealIt)).result = .ok x) :
    ∃ c, x.2 = .config c ∧ x.1.loader = { r.loader with config := some c, job := job } := by
  obtain ⟨y, hy, hx⟩ := Logged.andThen_eq_ok.mp h
  obtain ⟨c, -, hc⟩ := Logged.andThen_eq_ok.mp hy
  cases hc
  cases hx
  exact ⟨c, rfl, rfl⟩

/-- What an event adds to what a loader remembers. -/
def Event.record (e : Event) (l : Loader) : Loader :=
  { l with config := e.config?.or l.config, job := e.job?.getD l.job }

theorem loader_perform (h : (r.perform step).result = .ok x) :
    x.1.loader = Event.record ⟨step, .ok x.2⟩ r.loader := by
  cases step with
  | load job sealIt =>
    obtain ⟨c, hanswer, hloader⟩ := loader_of_loaded h
    rw [hanswer, hloader]
    rfl
  | reload =>
    obtain ⟨c, hanswer, hloader⟩ := loader_of_loaded h
    rw [hanswer, hloader]
    rfl
  | save | write => exact loader_of_written h
  | putFile | removeFile => exact loader_of_filed h
  | putVariables =>
    cases h
    rfl
  | _ => exact loader_of_looked h

theorem Event.record_error (step : LoaderStep) (e : ConfigError) (l : Loader) :
    Event.record ⟨step, .error e⟩ l = l := by
  cases step <;> rfl

theorem loader_putFiles (r : LoaderRun) (t : FileTree) : (r.putFiles t).loader = r.loader := rfl

theorem loader_failed (r : LoaderRun) (step : LoaderStep) : (r.failed step).loader = r.loader := by
  cases step with
  | save config path => exact loader_putFiles r _
  | write config path => exact loader_putFiles r _
  | _ => rfl

/-- One call: what it gave is added to what the loader remembers, which is nothing if it failed. -/
theorem loader_call (r : LoaderRun) (c : Call) : (r.call c).1.loader = (r.call c).2.record r.loader := by
  unfold call next
  dsimp only
  split
  · next hx => exact loader_perform hx
  · rw [loader_failed]
    exact (Event.record_error _ _ _).symm

/-- What a loader remembers after events. -/
def recordAll (es : List Event) (l : Loader) : Loader :=
  { l with
    config := (lastConfig? es).or l.config
    job := (es.filterMap Event.job?).getLast?.getD l.job }

theorem getLast?_filterMap_cons {α β : Type} (f : α → Option β) (a : α) (as : List α) :
    ((a :: as).filterMap f).getLast? = (as.filterMap f).getLast?.or (f a) := by
  cases h : f a with
  | none => rw [List.filterMap_cons_none h, Option.or_none]
  | some b => cases hl : (as.filterMap f).getLast? <;> simp [List.filterMap_cons_some h, List.getLast?_cons, hl]

theorem recordAll_cons (e : Event) (es : List Event) (l : Loader) :
    recordAll (e :: es) l = recordAll es (e.record l) := by
  rw [recordAll, recordAll, lastConfig?, lastConfig?, getLast?_filterMap_cons, getLast?_filterMap_cons, Event.record,
    Option.or_assoc]
  cases (es.filterMap Event.job?).getLast? <;> rfl

/-- A whole run. -/
theorem loader_callAll (r : LoaderRun) (cs : List Call) :
    (r.callAll cs).1.loader = recordAll (r.callAll cs).2 r.loader := by
  induction cs generalizing r with
  | nil => rfl
  | cons c cs ih => rw [callAll, ih, loader_call, ← recordAll_cons]

theorem eq_of_start {clusterPath : Option String} {settings : Option Settings} {s : Surroundings}
    (h : start clusterPath settings s = .ok r) : r.loader.config = none ∧ r.loader.job = .null := by
  obtain ⟨l, hl, rfl⟩ := map_eq_ok.mp h
  unfold Loader.start at hl
  dsimp only at hl
  cases settings with
  | some given =>
    cases hl
    exact ⟨rfl, rfl⟩
  | none =>
    obtain ⟨read, -, hl⟩ := bind_eq_ok.mp hl
    cases hl
    exact ⟨rfl, rfl⟩

/-- At every point of every run, whatever was called before and whatever it found: the loader's configuration is the
one that the last successful load or reload gave, its job that of the last successful load, and everything else as it
was made. The next call reads that configuration; a reload is a load for that job; and a call that fails, one for the
cluster's configuration and one that saves leave the loader as it is. -/
theorem loader_remembers_last_success (clusterPath : Option String) (settings : Option Settings) (s : Surroundings)
    (r : LoaderRun) (h : start clusterPath settings s = .ok r) (cs : List Call) :
    ∃ r' es, r.callAll cs = (r', es) ∧
      r'.loader = { r.loader with config := lastConfig? es, job := lastJob es } ∧
      ∀ s : Surroundings,
        ((r'.amid s).next .current).2.result = .ok (((lastConfig? es).map .config).getD .noConfig) ∧
        (r'.amid s).next .reload = (r'.amid s).next (.load (lastJob es) true) ∧
        ∀ step, (∃ e, (r'.call ⟨s, step⟩).2.answer = .error e) ∨ step = .clusterConfig ∨
            (∃ config path, step = .save config path) →
          (r'.call ⟨s, step⟩).1.loader = r'.loader := by
  obtain ⟨hconfig, hjob⟩ := eq_of_start h
  have hloader : (r.callAll cs).1.loader =
      { r.loader with config := lastConfig? (r.callAll cs).2, job := lastJob (r.callAll cs).2 } := by
    rw [loader_callAll, recordAll, hconfig, hjob, Option.or_none, lastJob]
  refine ⟨_, _, rfl, hloader, fun s => ⟨?_, ?_, fun step hstep => ?_⟩⟩
  · have hcurrent : ((r.callAll cs).1.amid s).loader.config = lastConfig? (r.callAll cs).2 := by rw [amid, hloader]
    rw [next, perform, hcurrent]
    cases lastConfig? (r.callAll cs).2 <;> rfl
  · have hjob : ((r.callAll cs).1.amid s).loader.job = lastJob (r.callAll cs).2 := by rw [amid, hloader]
    rw [next, next, perform, perform, Loader.reload, hjob]
    rfl
  · rw [loader_call]
    rcases hstep with ⟨e, he⟩ | rfl | ⟨config, path, rfl⟩
    · exact (congrArg (Event.record · _) (congrArg (Event.mk step) he)).trans (Event.record_error step e _)
    · rfl
    · rfl

/-- Defaults that are an empty document, and no environment variables. -/
def emptyDefaults : Surroundings := ⟨⟨[(["d.json"], .file (.text ""))]⟩, ⟨[]⟩⟩

/-- The defaults go away after a load that succeeds, so that the load for another job fails; once they are back, the
reload is for the first job. -/
theorem failed_job_is_not_reloaded :
    ∃ r r' es, start none (some { defaults := .document "d.json" }) emptyDefaults = .ok r ∧
      r.callAll [⟨emptyDefaults, .load (.map [(.str "a", .int 1)]) true⟩,
        ⟨⟨⟨[]⟩, ⟨[]⟩⟩, .load (.map [(.str "a", .int 2)]) true⟩] = (r', es) ∧
      es.map (fun e => e.answer.isOk) = [true, false] ∧
      (r'.amid emptyDefaults).next .reload = (r'.amid emptyDefaults).next (.load (.map [(.str "a", .int 1)]) true) := by
  obtain ⟨r', es, hrun, -, hstate⟩ := loader_remembers_last_success none (some { defaults := .document "d.json" })
    emptyDefaults _ rfl [⟨emptyDefaults, .load (.map [(.str "a", .int 1)]) true⟩,
      ⟨⟨⟨[]⟩, ⟨[]⟩⟩, .load (.map [(.str "a", .int 2)]) true⟩]
  have hevents : es.map (fun e => e.answer.isOk) = [true, false] :=
    (congrArg (fun x => x.2.map (fun e => e.answer.isOk)) hrun).symm.trans rfl
  have hjob : lastJob es = .map [(.str "a", .int 1)] := (congrArg (fun x => lastJob x.2) hrun).symm.trans rfl
  exact ⟨_, r', es, rfl, hrun, hevents, hjob ▸ (hstate emptyDefaults).2.1⟩

end LoaderRun
end TopologyConfig
