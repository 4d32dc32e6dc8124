import TopologyConfig.Proofs.ConfigMap.Again
import TopologyConfig.Proofs.Document.Written
import TopologyConfig.Proofs.Loader.History
import TopologyConfig.Proofs.Loader.Layers

/-!
Saving a configuration to the cluster's document and loading it again. What was saved is then one of the layers, below
the environment and the job that made it: the values that replace one another come out as before, and the entries that
the defaults and the job add under accumulator keys come out once more.
-/
namespace TopologyConfig

open ConfigMap
open Value (mapValues)

namespace ConfigMap

variable {c d : ConfigMap} {r : Registry} {layers : List Value}

theorem plainEntries_frozen (c : ConfigMap) : c.frozen.plainEntries = c.plainEntries := by
  rw [plainEntries, plainEntries, frozen, Value.freezeEntries_eq_mapValues, Value.thawEntries_eq_mapValues,
    Value.thawEntries_eq_mapValues, Value.mapValues_mapValues]
  exact Value.mapValues_congr fun e _ => Value.thaw_freeze e.2

end ConfigMap

theorem Registry.accumulatesLists_standard : Registry.standard.AccumulatesLists := by
  have hall : Registry.standard.keys.all (fun k => !k.accumulates || k.element?.isSome) = true := by decide +kernel
  intro k hk haccumulates
  simpa [haccumulates] using List.all_eq_true.mp hall k hk

namespace Override

/-- Variables stand for keys whose values replace one another. -/
theorem isAccumulator_eq_false : ∀ o ∈ all, Registry.standard.isAccumulator (.str o.key) = false := by
  decide +kernel

theorem exists_key_of_mem_entriesOf {e : Environment} {os : List Override} {es : Entries}
    (h : entriesOf e os = .ok es) : ∀ d ∈ es, ∃ o ∈ os, d.1 = .str o.key := by
  induction os generalizing es with
  | nil =>
    cases h
    simp
  | cons o os ih =>
    obtain ⟨entry, hentry, h⟩ := bind_eq_ok.mp h
    obtain ⟨others, hothers, h⟩ := bind_eq_ok.mp h
    cases h
    intro d hd
    rcases List.mem_append.mp hd with hd | hd
    · refine ⟨o, List.mem_cons_self, ?_⟩
      rw [Option.mem_toList] at hd
      rw [hd] at hentry
      unfold entry? at hentry
      split at hentry
      · cases hentry
      · split at hentry
        · cases hentry
          rfl
        · cases hentry
    · obtain ⟨p, hp, hkey⟩ := ih hothers d hd
      exact ⟨p, List.mem_cons_of_mem o hp, hkey⟩

end Override

namespace Loader

variable {l l₁ : Loader} {s : Surroundings} {job : Value} {layers : List Value} {c : ConfigMap}

theorem replacing_of_environment {es : Entries} (h : environmentLayer s = .ok es) :
    ∀ p ∈ namedEntries (.map es), Registry.standard.isAccumulator (.str p.1) = false := by
  intro p hp
  obtain ⟨fs, hfs, he⟩ := Value.mem_namedEntries_iff.mp hp
  cases hfs
  obtain ⟨o, ho, hkey⟩ := Override.exists_key_of_mem_entriesOf h _ he
  dsimp only at hkey
  rw [hkey]
  exact Override.isAccumulator_eq_false o ho

theorem of_layers_result (h : (l.layers s).result = .ok layers) : ∃ defaults cluster overrides,
    l.defaultsLayer s = .ok defaults ∧ (l.clusterLayer s).result = .ok cluster ∧
      environmentLayer s = .ok overrides ∧ layers = [.map defaults, .map cluster, .map overrides] := by
  obtain ⟨defaults, hdefaults, h⟩ := Logged.andThen_eq_ok.mp h
  obtain ⟨cluster, hcluster, h⟩ := Logged.andThen_eq_ok.mp h
  obtain ⟨overrides, hoverrides, h⟩ := map_eq_ok.mp h
  exact ⟨defaults, cluster, overrides, hdefaults, hcluster, hoverrides, h.symm⟩

/-- A sealed configuration is the one that the layers make, and has no violations. -/
theorem of_load_sealed (hlayers : (l.layers s).result = .ok layers) (hall : ∀ layer ∈ layers ++ [job], IsLayer layer)
    (h : (l.load s job true).result = .ok (l₁, c)) :
    (∀ e ∈ (layered Registry.standard (layers ++ [job])).entries, Registry.standard.allows e.1 e.2 = true) ∧
      c = (layered Registry.standard (layers ++ [job])).frozen ∧ l₁ = { l with config := some c, job := job } := by
  obtain ⟨d, hd, h⟩ := Logged.andThen_eq_ok.mp h
  cases h
  rw [assemble, Logged.andThen_result hlayers,
    Logged.andThen_result (mergeLayers_result Registry.standard hall), if_pos rfl] at hd
  obtain ⟨hinspect, hfrozen⟩ := toSealed_eq_ok rfl hd
  exact ⟨Registry.inspect_eq_nil_iff.mp hinspect, hfrozen, rfl⟩

/-- Layers that make a map without violations are loaded. -/
theorem load_sealed (hlayers : (l.layers s).result = .ok layers) (hall : ∀ layer ∈ layers ++ [job], IsLayer layer)
    (hallowed : ∀ e ∈ (layered Registry.standard (layers ++ [job])).entries,
      Registry.standard.allows e.1 e.2 = true) :
    let c := (layered Registry.standard (layers ++ [job])).frozen
    (l.load s job true).result = .ok ({ l with config := some c, job := job }, c) := by
  intro c
  have hsealed : ((layered Registry.standard (layers ++ [job])).toSealed (!l.settings.failFast)).result = .ok c :=
    toSealed_of_inspect rfl (Registry.inspect_eq_nil_iff.mpr hallowed) _
  have hassemble : (l.assemble s job true).result = .ok c := by
    rw [assemble, Logged.andThen_result hlayers,
      Logged.andThen_result (mergeLayers_result Registry.standard hall), if_pos rfl]
    exact hsealed
  rw [load, Logged.andThen_result hassemble]

theorem save_eq_ok_iff {path : String} (hpath : nonempty? l.clusterPath = some path) {t : FileTree} {v : Value}
    {w : Document.Written} : (l.save t v none).result = .ok w ↔ Document.writeFile t (Path.ofText path) v = .ok w := by
  have hchosen : (nonempty? none).or (nonempty? l.clusterPath) = some path := hpath
  unfold save
  simp only [Option.orElse_eq_orElse, Option.orElse_eq_or, hchosen]
  rw [Logged.andThen_eq_ok]
  simp [Logged.silent]

theorem filesAfterFailure_extends (l : Loader) (t : FileTree) (config : Value) (path : Option String) :
    FileTree.Extends t (l.filesAfterFailure t config path) := by
  unfold filesAfterFailure
  split
  · exact fun _ _ hn => hn
  · exact Document.filesAfterFailure_extends _ _ _

theorem extends_putFiles {r : LoaderRun} {t : FileTree} (h : FileTree.Extends r.surroundings.files t) :
    FileTree.Extends r.surroundings.files (r.putFiles t).surroundings.files := h

/-- A step of a run that fails takes no file away. -/
theorem failed_extends (r : LoaderRun) (step : LoaderStep) :
    FileTree.Extends r.surroundings.files (r.failed step).surroundings.files := by
  cases step with
  | save config path => exact extends_putFiles (filesAfterFailure_extends _ _ _ _)
  | write config path => exact extends_putFiles (Document.filesAfterFailure_extends _ _ _)
  | _ => exact fun _ _ hn => hn

/-- A document can be written where the cluster's document was read, or where any document can be saved. -/
theorem writable_of_place {path : String} {cluster : Entries} (hpath : nonempty? l.clusterPath = some path)
    (hcluster : (l.clusterLayer s).result = .ok cluster)
    (h : s.files.exists? (Path.ofText path) = .ok true ∨ ∃ w, (l.save s.files (.map []) none).result = .ok w) :
    Document.Writable s.files (Path.ofText path) := by
  rcases h with hexists | ⟨w, hsave⟩
  · simp only [clusterLayer, hpath, hexists] at hcluster
    exact Document.writable_of_readFile hcluster
  · exact Document.writable_of_writeFile ((save_eq_ok_iff hpath).mp hsave)

/-- The defaults are read as before, unless their document has changed. -/
theorem defaultsLayer_again {defaults : Entries} {files : FileTree} {changed : Path}
    (hdefaults : l.defaultsLayer s = .ok defaults)
    (h : ∀ path es, Document.readFile s.files (Path.ofText path) = .ok es →
      Document.readFile files (Path.ofText path) = .ok es ∨
        Document.readFile files (Path.ofText path) = Document.readFile files changed)
    (hchanged : ∃ es, Document.readFile files changed = .ok es) :
    ∃ defaults', l.defaultsLayer ⟨files, s.environment⟩ = .ok defaults' ∧
      (l.defaultsLayer s = .ok defaults' ∨ Document.readFile files changed = .ok defaults') := by
  unfold defaultsLayer at hdefaults ⊢
  split at hdefaults
  · exact ⟨_, rfl, .inl rfl⟩
  · next path _ =>
    dsimp only
    rcases h path defaults hdefaults with hsame | hnew
    · exact ⟨defaults, hsame, .inl hdefaults⟩
    · obtain ⟨es, hes⟩ := hchanged
      exact ⟨es, hnew.trans hes, .inr hes⟩

/-- Where the cluster's document is JSON and one can be written there, a configuration of plain layers can be saved and
loaded again. The same keys stand in the same order and have the same values, except that the entries which the
defaults and the job have under an accumulator key are put before and after those that were saved. So what comes out is
what was saved exactly if neither the defaults nor the job have such an entry. The defaults are read as before, unless
their document is the cluster's, and floats that are no numbers count as the same. -/
theorem saving_registers_defaults_and_job_again (l : Loader) (s : Surroundings) (job : Value) (path : String)
    (l₁ : Loader) (c : ConfigMap) (hpath : nonempty? l.clusterPath = some path)
    (hjson : DocumentFormat.ofPath path = .ok .json)
    (hlayers : ∀ layers, (l.layers s).result = .ok layers → ∀ layer ∈ layers ++ [job], IsPlainLayer layer)
    (hload : (l.load s job true).result = .ok (l₁, c))
    (hplace : s.files.exists? (Path.ofText path) = .ok true ∨ ∃ w, (l.save s.files (.map []) none).result = .ok w) :
    ∃ w l₂ c' defaults, (l₁.save s.files c.asLayer none).result = .ok w ∧
      (l₁.reload ⟨w.files, s.environment⟩).result = .ok (l₂, c') ∧ c'.isSealed = true ∧
      l.defaultsLayer ⟨w.files, s.environment⟩ = .ok defaults ∧
      (l.defaultsLayer s = .ok defaults ∨ Document.readFile w.files (Path.ofText path) = .ok defaults) ∧
      c'.toValue.withNaN (Binary64.nan 1) =
        (Value.map (registeredAgain Registry.standard (.map defaults) job c.plainEntries)).withNaN (Binary64.nan 1) ∧
      (c'.toValue.withNaN (Binary64.nan 1) = c.toValue.withNaN (Binary64.nan 1) ↔
        ∀ name, Registry.standard.isAccumulator (.str name) = true →
          addedUnder name (.map defaults) = [] ∧ addedUnder name job = []) := by
  obtain ⟨layers, hresult⟩ : ∃ layers, (l.layers s).result = .ok layers := by
    obtain ⟨d, hd, -⟩ := Logged.andThen_eq_ok.mp hload
    obtain ⟨layers, hresult, -⟩ := Logged.andThen_eq_ok.mp hd
    exact ⟨layers, hresult⟩
  have hplain := hlayers layers hresult
  obtain ⟨hallowed, hc, rfl⟩ := of_load_sealed hresult (fun layer hlayer => (hplain layer hlayer).1) hload
  obtain ⟨defaults, cluster, overrides, hdefaults, hcluster, hoverrides, rfl⟩ := of_layers_result hresult
  generalize hmade : layered Registry.standard ([.map defaults, .map cluster, .map overrides] ++ [job]) = made
    at hallowed hc
  have hentries : c.plainEntries = made.entries := by
    rw [hc, plainEntries_frozen, ← hmade, plainEntries_layered]
  have hdocument : c.toValue.IsDocument := by
    rw [hc, toValue, plainEntries_frozen, ← hmade]
    exact isDocument_layered hplain
  obtain ⟨w, hwrite, hexists, hself, hothers⟩ := Document.readFile_of_writeFile hdocument
    (writable_of_place hpath hcluster hplace) (DocumentFormat.ofPath_text hjson)
  obtain ⟨defaults', hdefaults', hsame⟩ := defaultsLayer_again hdefaults hothers ⟨_, hself⟩
  rw [hentries] at hself
  have hcluster' : (l.clusterLayer ⟨w.files, s.environment⟩).result =
      .ok (mapValues (Value.withNaN (Binary64.nan 1)) made.entries) := by
    simp only [clusterLayer, hpath, hexists]
    exact hself
  have hlowest : Value.map defaults' = .map defaults ∨
      Value.map defaults' = .map (mapValues (Value.withNaN (Binary64.nan 1)) made.entries) :=
    hsame.imp (fun h => congrArg Value.map (Except.ok.inj (h.symm.trans hdefaults)))
      fun h => congrArg Value.map (Except.ok.inj (h.symm.trans hself))
  obtain ⟨hallowed', hvalues, hiff⟩ := layered_again Registry.accumulatesLists_standard hmade rfl hplain
    (replacing_of_environment hoverrides) hlowest hallowed
  have hlayer : ∀ layer ∈ [.map defaults', .map (mapValues (Value.withNaN (Binary64.nan 1)) made.entries),
      .map overrides] ++ [job], IsLayer layer := by
    have hjob : IsLayer job := (hplain job (by simp)).1
    simp [isLayer_defaults hdefaults', isLayer_cluster hcluster', isLayer_environment hoverrides, hjob]
  have hreload : (Loader.reload { l with config := some c, job := job } ⟨w.files, s.environment⟩).result = .ok _ :=
    load_sealed (layers_result hdefaults' hcluster' hoverrides) hlayer hallowed'
  refine ⟨w, _, _, defaults', (save_eq_ok_iff hpath).mpr hwrite, hreload, rfl, hdefaults', hsame, ?_, ?_⟩
  · rw [toValue, plainEntries_frozen, plainEntries_layered, hentries, Value.withNaN_map, Value.withNaN_map]
    exact congrArg Value.map hvalues
  · rw [toValue, toValue, plainEntries_frozen, plainEntries_layered, hentries, Value.withNaN_map, Value.withNaN_map,
      Value.map.injEq, ← hiff]
    exact ⟨fun h => hvalues.symm.trans h, fun h => hvalues.trans h⟩

/-- A loader with the given path of the cluster's document. -/
def savingTo (path : String) : Loader :=
  { settings := { defaults := .document "d.json" }, clusterPath := some path }

/-- Decorators of a job. -/
def decorators (names : List String) : Entries := [(.str "topology.kryo.decorators", .list (names.map .str))]

/-- The text of a document with one decorator. -/
def decoratorText : String := "\x7b\"topology.kryo.decorators\": [\"a.B\"]\x7d"

/-- The decorator of a job is registered once more when the job's configuration is saved and loaded again; and below
a file nothing can be saved. -/
theorem saved_decorator_is_registered_twice :
    (∃ l₁ c w l₂ c',
      ((savingTo "c.json").load LoaderRun.emptyDefaults (.map (decorators ["a.B"])) true).result = .ok (l₁, c) ∧
      (l₁.save LoaderRun.emptyDefaults.files c.asLayer none).result = .ok w ∧
      (l₁.reload ⟨w.files, LoaderRun.emptyDefaults.environment⟩).result = .ok (l₂, c') ∧
      c.plainEntries = decorators ["a.B"] ∧ c'.plainEntries = decorators ["a.B", "a.B"]) ∧
    ∃ l₁ c e, ((savingTo "d.json/c.json").load LoaderRun.emptyDefaults .null true).result = .ok (l₁, c) ∧
      (l₁.save LoaderRun.emptyDefaults.files c.asLayer none).result = .error e := by
  let c : ConfigMap := ⟨Registry.standard, Value.freezeEntries (decorators ["a.B"]), true⟩
  let l₁ : Loader := { savingTo "c.json" with config := some c, job := .map (decorators ["a.B"]) }
  let w : Document.Written :=
    ⟨⟨(["c.json"], .file (.text decoratorText)) :: LoaderRun.emptyDefaults.files.nodes⟩, decoratorText⟩
  have hlayers : (l₁.layers ⟨w.files, LoaderRun.emptyDefaults.environment⟩).result =
      .ok [.map [], .map (decorators ["a.B"]), .map []] := rfl
  have hlayer : ∀ layer ∈ [.map [], .map (decorators ["a.B"]), .map []] ++ [.map (decorators ["a.B"])],
      IsLayer layer := by
    have hempty : IsLayer (.map []) := isLayer_map (by simp)
    have hone : IsLayer (.map (decorators ["a.B"])) := isLayer_map (by simp [decorators, Value.isString])
    simp [hempty, hone]
  have hmade : (layered Registry.standard
      ([.map [], .map (decorators ["a.B"]), .map []] ++ [.map (decorators ["a.B"])])).entries =
      decorators ["a.B", "a.B"] := rfl
  have hallowed : ∀ e ∈ decorators ["a.B", "a.B"], Registry.standard.allows e.1 e.2 = true := by
    simp only [decorators, List.forall_mem_cons]
    exact ⟨rfl, List.forall_mem_nil _⟩
  exact ⟨⟨l₁, c, w, _, _, rfl, rfl, load_sealed hlayers hlayer (hmade ▸ hallowed), rfl, rfl⟩, _, _, _, rfl, rfl⟩

/-- One decorator of a job, without any other layer. -/
theorem decorator_is_put_after_the_saved_one :
    ∃ l₁ c w l₂ c' defaults,
      ((savingTo "c.json").load LoaderRun.emptyDefaults (.map (decorators ["a.B"])) true).result = .ok (l₁, c) ∧
      (l₁.save LoaderRun.emptyDefaults.files c.asLayer none).result = .ok w ∧
      (l₁.reload ⟨w.files, LoaderRun.emptyDefaults.environment⟩).result = .ok (l₂, c') ∧ c'.isSealed = true ∧
      (savingTo "c.json").defaultsLayer ⟨w.files, LoaderRun.emptyDefaults.environment⟩ = .ok defaults ∧
      c'.toValue.withNaN (Binary64.nan 1) = (Value.map (registeredAgain Registry.standard (.map defaults)
        (.map (decorators ["a.B"])) c.plainEntries)).withNaN (Binary64.nan 1) := by
  have hplain : IsPlainLayer (.map []) ∧ IsPlainLayer (.map (decorators ["a.B"])) := by
    refine ⟨⟨isLayer_map (by simp), .map [] (by simp [Entries.HasTextKeys]) List.Pairwise.nil (by simp)⟩,
      isLayer_map (by simp [decorators, Value.isString]), ?_⟩
    refine .map (decorators ["a.B"]) (by simp [Entries.HasTextKeys, decorators, Value.isString]) ?_ ?_
    · simp [Entries.Distinct, decorators]
    · simpa [decorators] using .list _ (by simpa using .str "a.B")
  obtain ⟨w, l₂, c', defaults, hsave, hreload, hsealed, hdefaults, -, hvalue, -⟩ :=
    saving_registers_defaults_and_job_again (savingTo "c.json") LoaderRun.emptyDefaults (.map (decorators ["a.B"]))
      "c.json" _ _ rfl rfl (fun layers hlayers => by
        cases hlayers
        simp [hplain]) rfl (.inr ⟨_, rfl⟩)
  exact ⟨_, _, w, l₂, c', defaults, rfl, hsave, hreload, hsealed, hdefaults, hvalue⟩

end Loader
end TopologyConfig
