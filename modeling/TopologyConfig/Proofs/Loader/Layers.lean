import TopologyConfig.Loader.Basic
import TopologyConfig.Proofs.ConfigMap.Layers

/-!
The layers of a loader. Whatever the documents and the environment are, a layer that can be read has strings as
keys, so that loading merges the layers in closed form.
-/
namespace TopologyConfig.Loader

open ConfigMap (IsLayer Logged layered)

theorem isLayer_map {es : Entries} (h : ∀ e ∈ es, e.1.isString = true) : IsLayer (.map es) :=
  Or.inr ⟨es, rfl, h⟩

theorem isString_of_mem_rootEntries {source : String} {v : Value} {es : Entries}
    (h : Document.rootEntries source v = .ok es) : ∀ e ∈ es, e.1.isString = true := by
  unfold Document.rootEntries at h
  split at h
  · cases h
    simp
  · split at h
    · next hb =>
      cases h
      simpa [Document.badKeys, Entries.keys, List.filter_eq_nil_iff] using hb
    · split at h <;> contradiction
  · contradiction

theorem isString_of_mem_readFile {t : FileTree} {p : Path} {es : Entries}
    (h : Document.readFile t p = .ok es) : ∀ e ∈ es, e.1.isString = true := by
  obtain ⟨text, -, h⟩ := bind_eq_ok.mp h
  obtain ⟨format, -, h⟩ := bind_eq_ok.mp h
  obtain ⟨v, -, h⟩ := bind_eq_ok.mp h
  exact isString_of_mem_rootEntries h

variable {l : Loader} {s : Surroundings} {es : Entries}

theorem isLayer_defaults (h : l.defaultsLayer s = .ok es) : IsLayer (.map es) := by
  apply isLayer_map
  unfold defaultsLayer at h
  split at h
  · cases h
    intro e he
    obtain ⟨d, -, rfl⟩ := List.mem_map.mp he
    rfl
  · exact isString_of_mem_readFile h

theorem isLayer_cluster (h : (l.clusterLayer s).result = .ok es) : IsLayer (.map es) := by
  apply isLayer_map
  unfold clusterLayer at h
  split at h
  · cases h
    simp
  · dsimp only at h
    split at h
    · cases h
    · cases h
      simp
    · exact isString_of_mem_readFile h

theorem isString_of_entry? {o : Override} {e : Environment} {d : Value × Value}
    (h : o.entry? e = .ok (some d)) : d.1.isString = true := by
  unfold Override.entry? at h
  split at h
  · cases h
  · split at h
    · cases h
      rfl
    · cases h

theorem isString_of_mem_entriesOf {e : Environment} {os : List Override} (h : Override.entriesOf e os = .ok es) :
    ∀ d ∈ es, d.1.isString = true := by
  induction os generalizing es with
  | nil =>
    cases h
    simp
  | cons o os ih =>
    obtain ⟨entry, hentry, h⟩ := bind_eq_ok.mp h
    obtain ⟨others, hothers, h⟩ := bind_eq_ok.mp h
    cases h
    intro d hd
    rcases List.mem_append.mp hd with hd | hd
    · exact isString_of_entry? (hentry.trans (congrArg _ (Option.mem_toList.mp hd)))
    · exact ih hothers d hd

theorem isLayer_environment (h : environmentLayer s = .ok es) : IsLayer (.map es) :=
  isLayer_map (isString_of_mem_entriesOf h)

theorem layers_result {defaults cluster overrides : Entries} (hd : l.defaultsLayer s = .ok defaults)
    (hc : (l.clusterLayer s).result = .ok cluster) (he : environmentLayer s = .ok overrides) :
    (l.layers s).result = .ok [.map defaults, .map cluster, .map overrides] := by
  rw [layers, Logged.andThen_result hd, Logged.andThen_result hc, he]
  rfl

/-- Without sealing, a loader gives what its four layers make, and remembers it with the job. -/
theorem load_result {defaults cluster overrides : Entries} {job : Value} (hd : l.defaultsLayer s = .ok defaults)
    (hc : (l.clusterLayer s).result = .ok cluster) (he : environmentLayer s = .ok overrides)
    (hj : IsLayer job) :
    let c := layered Registry.standard [.map defaults, .map cluster, .map overrides, job]
    (l.load s job false).result = .ok ({ l with config := some c, job := job }, c) := by
  intro c
  have hlayers : ∀ layer ∈ [.map defaults, .map cluster, .map overrides] ++ [job], IsLayer layer := by
    simp [isLayer_defaults hd, isLayer_cluster hc, isLayer_environment he, hj]
  have hassemble : (l.assemble s job false).result = .ok c := by
    rw [assemble, Logged.andThen_result (layers_result hd hc he),
      Logged.andThen_result (ConfigMap.mergeLayers_result Registry.standard hlayers)]
    rfl
  rw [load, Logged.andThen_result hassemble]

/-- Layers always merge, and what they make is known for every key from the values that they have under it. An
unsealed configuration is what the defaults, the cluster's document, the environment and the job make. -/
theorem layers_merge_in_closed_form :
    (∀ (r : Registry) (layers : List Value), (∀ layer ∈ layers, IsLayer layer) →
      (ConfigMap.mergeLayers r layers).result = .ok (layered r layers)) ∧
    ∀ (l : Loader) (s : Surroundings) (defaults cluster overrides : Entries) (job : Value),
      l.defaultsLayer s = .ok defaults → (l.clusterLayer s).result = .ok cluster →
      environmentLayer s = .ok overrides → IsLayer job →
      let c := layered Registry.standard [.map defaults, .map cluster, .map overrides, job]
      (l.load s job false).result = .ok ({ l with config := some c, job := job }, c) :=
  ⟨fun r _ h => ConfigMap.mergeLayers_result r h, fun _ _ _ _ _ _ hd hc he hj => load_result hd hc he hj⟩

/-- A registry whose only key accumulates texts. -/
def textsRegistry : Registry := ⟨[⟨"k", some Shape.strings, "", true⟩], 1⟩

/-- A null layer, a plain one, a sealed configuration and a read-only view; the defaults alone, for no job. -/
theorem four_kinds_of_layers_merge :
    (ConfigMap.mergeLayers textsRegistry
      [.null, .map [(.str "x", .int 1), (.str "k", .str "a")],
        .config none true [(.str "k", .frozenList [.str "b", .str "c"])],
        .view [(.str "k", .null), (.str "x", .tuple [.int 2])]]).result =
      .ok ⟨textsRegistry, [(.str "x", .list [.int 2]), (.str "k", .list [.str "a", .str "b", .str "c"])],
        false⟩ ∧
    ∃ c, ((Loader.mk {} none none .null).load ⟨⟨[]⟩, ⟨[]⟩⟩ .null false).result =
      .ok ({ Loader.mk {} none none .null with config := some c }, c) := by
  refine ⟨(layers_merge_in_closed_form.1 _ _ ?_).trans rfl, _,
    layers_merge_in_closed_form.2 _ _ Defaults.entries [] [] .null rfl rfl rfl (Or.inl rfl)⟩
  simp only [List.forall_mem_cons, IsLayer]
  exact ⟨.inl trivial, .inr ⟨_, rfl, by decide⟩, .inr ⟨_, rfl, by decide⟩, .inr ⟨_, rfl, by decide⟩, nofun⟩

end TopologyConfig.Loader
