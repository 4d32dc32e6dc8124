import TopologyConfig.Proofs.ConfigMap.Copying
import TopologyConfig.Proofs.Schema.Thawed
import TopologyConfig.Proofs.Session.Validity

/-!
Copies of the maps of a session. A copy holds the plain entries of its original; a copy of a sealed map is sealed
again, and that never fails: what was found valid before it was frozen is valid in plain form too.
-/
namespace TopologyConfig

open Value ConfigMap

namespace ConfigMap

variable {c d : ConfigMap}

/-- The two maps have the same entries in plain form, under the same keys and the same registry. -/
structure Resembles (d c : ConfigMap) : Prop where
  registry : d.registry = c.registry
  keys : Entries.keys d.entries = Entries.keys c.entries
  plain : d.toValue = c.toValue

theorem Resembles.trans {e : ConfigMap} (h : e.Resembles d) (h' : d.Resembles c) : e.Resembles c :=
  ⟨h.registry.trans h'.registry, h.keys.trans h'.keys, h.plain.trans h'.plain⟩

/-- The map from the plain entries. -/
def plainCopy (c : ConfigMap) : ConfigMap := ⟨c.registry, c.plainEntries, false⟩

theorem resembles_plainCopy (c : ConfigMap) : c.plainCopy.Resembles c where
  registry := rfl
  keys := by rw [plainCopy, plainEntries, thawEntries_eq_mapValues, Entries.keys_mapValues]
  plain := by simp [plainCopy, toValue, plainEntries, thawEntries_eq_mapValues, mapValues_mapValues, thaw_thaw]

theorem resembles_frozen (c : ConfigMap) : c.frozen.Resembles c where
  registry := rfl
  keys := by rw [frozen, freezeEntries_eq_mapValues, Entries.keys_mapValues]
  plain := by
    simp [frozen, toValue, plainEntries, thawEntries_eq_mapValues, freezeEntries_eq_mapValues, mapValues_mapValues,
      thaw_freeze]

theorem copy_eq_plainCopy (hk : c.entries.HasTextKeys) (hd : c.entries.Distinct) : c.copy = .ok c.plainCopy := by
  rw [copy, ofEntries_of_distinct _ hk hd, plainCopy, plainEntries, thawEntries_eq_mapValues]

theorem rebuild_result (hk : c.entries.HasTextKeys) (hd : c.entries.Distinct) (sealIt : Bool) :
    (rebuild c.registry c.plainEntries sealIt).result =
      if sealIt then (c.plainCopy.toSealed true).result else .ok c.plainCopy := by
  have hplain : mapValues thaw c.plainEntries = c.plainEntries := by
    simp [plainEntries, thawEntries_eq_mapValues, mapValues_mapValues, thaw_thaw]
  have hmade : ofEntries c.registry c.plainEntries = .ok c.plainCopy := by
    have hkeys : Entries.HasTextKeys c.plainEntries := by
      rw [plainEntries, thawEntries_eq_mapValues]
      exact Entries.hasTextKeys_mapValues_iff.mpr hk
    have hdistinct : Entries.Distinct c.plainEntries := by
      rw [plainEntries, thawEntries_eq_mapValues]
      exact Entries.distinct_mapValues hd
    rw [ofEntries_of_distinct _ hkeys hdistinct, hplain, plainCopy]
  rw [rebuild, hmade]
  cases sealIt <;> rfl

/-- An open map without violations is sealed in both modes. -/
theorem toSealed_of_inspect (ho : c.isSealed = false) (h : c.registry.inspect c.entries = ⟨[], none⟩)
    (collect : Bool) : (c.toSealed collect).result = .ok c.frozen := by
  simp [toSealed, ho, h]

/-- Only a map without violations is sealed. -/
theorem toSealed_eq_ok {collect : Bool} (ho : c.isSealed = false) (h : (c.toSealed collect).result = .ok d) :
    c.registry.inspect c.entries = ⟨[], none⟩ ∧ d = c.frozen := by
  unfold toSealed at h
  rw [if_neg (by simp [ho])] at h
  dsimp only at h
  split at h
  · next hfound hstopped =>
    cases h
    exact ⟨by rw [← hfound, ← hstopped], rfl⟩
  · cases h
  · split at h
    · split at h <;> cases h
    · cases h

theorem inspect_plainCopy (h : ∀ e ∈ c.entries, c.registry.allows e.1 e.2 = true) :
    c.plainCopy.registry.inspect c.plainCopy.entries = ⟨[], none⟩ := by
  refine Registry.inspect_eq_nil_iff.mpr fun e he => ?_
  rw [plainCopy, plainEntries, thawEntries_eq_mapValues] at he
  obtain ⟨e', he', rfl⟩ := mem_mapValues.mp he
  exact Registry.allows_thaw (h e' he')

/-- The plain copy of a map without violations is sealed in both modes. -/
theorem toSealed_plainCopy (h : ∀ e ∈ c.entries, c.registry.allows e.1 e.2 = true) (collect : Bool) :
    (c.plainCopy.toSealed collect).result = .ok c.plainCopy.frozen :=
  toSealed_of_inspect rfl (inspect_plainCopy h) collect

end ConfigMap

namespace Session

/-- In every session of a run, the copies of a map whose keys are texts exist and show what the map shows. A deep
copy, and a shallow one, which is made in the same way, is sealed if the map is; the open copy of a sealed map can be
sealed in both modes. -/
theorem copies_are_faithful (r : Registry) (ks : List Command) (s : Session) (h : (start r).afterAll ks = some s) :
    ∀ c ∈ s.maps, c.entries.HasTextKeys →
      (∃ d, c.deepCopy.result = .ok d ∧ d.isSealed = c.isSealed ∧ d.Resembles c) ∧
      ∃ d, c.copy = .ok d ∧ d.isSealed = false ∧ d.Resembles c ∧
        (c.isSealed = true → ∀ collect, ∃ e, (d.toSealed collect).result = .ok e ∧ e.isSealed = true ∧
          e.Resembles c) := by
  intro c hc hkeys
  obtain ⟨hholds, -, hfirm⟩ := firm_of_afterAll h
  have hdistinct : c.entries.Distinct := (hholds.entries c hc).distinct
  have hvalid (hs : c.isSealed = true) : ∀ e ∈ c.entries, c.registry.allows e.1 e.2 = true := fun e he =>
    Registry.allows_of_allowsFrozen (hfirm c hc hs e he)
  have hsealed := (resembles_frozen c.plainCopy).trans (resembles_plainCopy c)
  refine ⟨?_, c.plainCopy, copy_eq_plainCopy hkeys hdistinct, rfl, resembles_plainCopy c, fun hs collect =>
    ⟨_, toSealed_plainCopy (hvalid hs) collect, rfl, hsealed⟩⟩
  rw [deepCopy, rebuild_result hkeys hdistinct]
  cases hs : c.isSealed with
  | false => exact ⟨_, rfl, rfl, resembles_plainCopy c⟩
  | true => exact ⟨_, toSealed_plainCopy (hvalid hs) true, rfl, hsealed⟩

/-- A closed map can be copied although a tuple was put into a list that its key checks, and a list stays open in
it. -/
theorem copied_with_tuple_and_live_list :
    ∃ s, (start ⟨[⟨"names", some (.listOf .strings), "", false⟩], 1⟩).afterAll
        [⟨"c", "c", .set (.str "names") (.list [])⟩,
          ⟨"c", "c", .mutate [.str "names"] .append [.tuple [.str "a"]]⟩,
          ⟨"c", "c", .set (.str "free") (.list [])⟩,
          ⟨"c", "c", .mutate [.str "free"] .append [.view [(.str "x", .list [])]]⟩,
          ⟨"c", "c", .close true⟩,
          ⟨"c", "c", .mutate [.str "free", .int 0, .str "x"] .append [.int 1]⟩] = some s ∧
      (s.mapAt 0).isSealed = true ∧ (s.mapAt 0).entries.HasTextKeys ∧
      (∃ d, (s.mapAt 0).deepCopy.result = .ok d ∧ d.isSealed = true ∧ d.Resembles (s.mapAt 0)) ∧
      ∃ d, (s.mapAt 0).copy = .ok d ∧ ∃ e, (d.toSealed false).result = .ok e ∧ e.Resembles (s.mapAt 0) := by
  have hrun : ((start ⟨[⟨"names", some (.listOf .strings), "", false⟩], 1⟩).afterAll
      [⟨"c", "c", .set (.str "names") (.list [])⟩,
        ⟨"c", "c", .mutate [.str "names"] .append [.tuple [.str "a"]]⟩,
        ⟨"c", "c", .set (.str "free") (.list [])⟩,
        ⟨"c", "c", .mutate [.str "free"] .append [.view [(.str "x", .list [])]]⟩,
        ⟨"c", "c", .close true⟩,
        ⟨"c", "c", .mutate [.str "free", .int 0, .str "x"] .append [.int 1]⟩]).map
      (fun s => (s.maps.length, (s.mapAt 0).isSealed, (s.mapAt 0).entries.all (·.1.isString))) =
        some (1, true, true) := rfl
  obtain ⟨s, hs, hseen⟩ := Option.map_eq_some_iff.mp hrun
  obtain ⟨hlength, hseen⟩ := Prod.mk.inj hseen
  obtain ⟨hsealed, htexts⟩ := Prod.mk.inj hseen
  have hmem : s.mapAt 0 ∈ s.maps := mapAt_mem (by omega)
  have hkeys : (s.mapAt 0).entries.HasTextKeys := List.all_eq_true.mp htexts
  obtain ⟨⟨d, hd, hdsealed, hdshows⟩, d', hd', -, -, hclose⟩ := copies_are_faithful _ _ s hs _ hmem hkeys
  obtain ⟨e, he, -, heshows⟩ := hclose hsealed false
  exact ⟨s, hs, hsealed, hkeys, ⟨d, hd, hdsealed.trans hsealed, hdshows⟩, d', hd', e, he, heshows⟩

end Session
end TopologyConfig
