import TopologyConfig.Proofs.Schema.Frozen
import TopologyConfig.Proofs.Session.Run

/-!
Sealed maps stay valid. A map is closed only if nothing is wrong with it; its values are accepted for their frozen
parts alone from then on, and nothing that a command does reaches these.
-/
namespace TopologyConfig

open Value ConfigMap Relation

namespace Value

theorem keepsFrozen_of_eq {f : Value → Value} (hleaf : ∀ v, v.isLeaf = true → f v = v)
    (hlist : ∀ xs, f (.frozenList xs) = .frozenList (xs.map f))
    (hmap : ∀ es, f (.frozenMap es) = .frozenMap (mapValues f es)) : KeepsFrozen fun v w => w = f v := by
  refine ⟨?_, ?_, ?_⟩
  · rintro v w hv rfl
    exact hleaf v hv
  · rintro xs w rfl
    refine ⟨_, hlist xs, ?_⟩
    induction xs with
    | nil => exact .nil
    | cons x xs ih => exact .cons rfl ih
  · rintro es w rfl
    exact ⟨_, hmap es, Entries.pointwise_mapValues fun _ _ => rfl⟩

theorem keepsFrozen_relabelled (label : Nat) (contents : Value) :
    KeepsFrozen fun v w => w = relabelled label contents v := by
  refine keepsFrozen_of_eq (fun v hv => relabelled_of_isLeaf label contents hv) (fun xs => ?_) fun es => ?_
  · rw [relabelled, relabelledItems_eq_map]
  · rw [relabelled, relabelledEntries_eq_mapValues]

theorem keepsFrozen_refreshed (maps : List ConfigMap) : KeepsFrozen fun v w => w = v.refreshed maps := by
  refine keepsFrozen_of_eq (fun v hv => refreshed_of_isLeaf maps hv) (fun xs => ?_) fun es => ?_
  · rw [refreshed, refreshedItems_eq_map]
  · rw [refreshed, refreshedEntries_eq_mapValues]

theorem keepsFrozen_labels : KeepsFrozen Labels := by
  refine ⟨?_, ?_, ?_⟩
  · rintro v w hv ⟨next, rfl⟩
    rw [withLabels_of_isLeaf hv]
  · rintro xs w ⟨next, rfl⟩
    exact ⟨_, rfl, labels_items next xs⟩
  · rintro es w ⟨next, rfl⟩
    exact ⟨_, rfl, labels_entries next es⟩

end Value

namespace ConfigMap

variable {A P : Value → Prop} {c d : ConfigMap}

/-- If the map is sealed, its registry allows all its values for their frozen parts alone. -/
def Firm (c : ConfigMap) : Prop := c.isSealed = true → ∀ e ∈ c.entries, c.registry.AllowsFrozen e.1 e.2

theorem firm_of_open (h : c.isSealed = false) : c.Firm := fun hs => by simp [h] at hs

theorem Edit.firm (h : Edit A P c d) (_hc : c.Firm) : d.Firm := by
  cases h with
  | put key v ho hk hv _ => exact firm_of_open ho
  | remove key ho => exact firm_of_open ho
  | clear ho => exact firm_of_open ho
  -- The map has been found valid as it was, and the verdict carries over to its frozen values.
  | close ho hv =>
    intro _ e he
    rw [frozen, freezeEntries_eq_mapValues] at he
    obtain ⟨e', he', rfl⟩ := mem_mapValues.mp he
    exact Registry.allowsFrozen_freeze (Registry.inspect_eq_nil_iff.mp hv e' he')

theorem Edits.firm (h : Edits A P c d) (hc : c.Firm) : d.Firm := by
  induction h with
  | refl => exact hc
  | tail _ hlast ih => exact hlast.firm ih

theorem validate_of_firm (hs : c.isSealed = true) (h : c.Firm) : c.validate = .ok [] := by
  have hnone : c.registry.inspect c.entries = ⟨[], none⟩ :=
    Registry.inspect_eq_nil_iff.mpr fun e he => Registry.allows_of_allowsFrozen (h hs e he)
  simp [ConfigMap.validate, Registry.validateAll, hnone, Except.mapError]

end ConfigMap

namespace Session

variable {A P : Value → Prop} {s s' : Session}

theorem Walked.firm {R : Value → Value → Prop} (hR : KeepsFrozen R) {cs ds : List ConfigMap} (h : Walked R cs ds)
    (hcs : ∀ c ∈ cs, c.Firm) : ∀ d ∈ ds, d.Firm := by
  intro d hd hs e he
  obtain ⟨c, hc, hreg, hsealed, hes⟩ := h.of_mem hd
  obtain ⟨e', he', hkey, hr⟩ := hes.of_mem he
  have hold := hcs c hc (hsealed ▸ hs) e' he'
  rw [hreg, ← hkey]
  exact Registry.allowsFrozen_of_keepsFrozen hR hr hold

theorem Move.firm (h : Move A P s s') (hs : ∀ c ∈ s.maps, c.Firm) : ∀ c ∈ s'.maps, c.Firm := by
  cases h with
  | edit n d h =>
    intro c hc
    rcases List.mem_or_eq_of_mem_set hc with hc | rfl
    · exact hs c hc
    · rcases Nat.lt_or_ge n s.maps.length with hn | hn
      · exact h.firm (hs _ (mapAt_mem hn))
      · rw [mapAt_of_ge hn] at h
        exact h.firm (firm_of_open rfl)
  | bind name c r hr h =>
    intro d hd
    rcases List.mem_append.mp hd with hd | hd
    · exact hs d hd
    · cases List.mem_singleton.mp hd
      exact h.firm (firm_of_open rfl)
  | replace l v h => exact (walked_replace s l v).firm (keepsFrozen_relabelled l _) hs
  | label => exact (walked_label s).firm keepsFrozen_labels hs
  | round => exact (walked_refreshRound s.maps).firm (keepsFrozen_refreshed s.maps) hs

theorem Moves.firm (h : Moves A P s s') (hs : ∀ c ∈ s.maps, c.Firm) : ∀ c ∈ s'.maps, c.Firm := by
  induction h with
  | refl => exact hs
  | tail _ hlast ih => exact hlast.firm ih

/-- In every session of a run, all maps know the keys of the registry, and the sealed ones are valid for good. -/
theorem firm_of_afterAll {r : Registry} {ks : List Command} (h : (start r).afterAll ks = some s) :
    s.Holds (fun _ => True) (fun _ => True) ∧ s.registry = r ∧ ∀ c ∈ s.maps, c.Firm := by
  have hstart : ∀ c ∈ (start r).maps, c.Firm := by
    intro c hc
    cases List.mem_singleton.mp hc
    exact firm_of_open rfl
  have hmoves := moves_afterAll (holds_start r) h
  exact ⟨Moves.holds (hereditary_of_keys fun _ => trivial) hmoves (holds_start r), Moves.registry_eq hmoves,
    Moves.firm hmoves hstart⟩

/-- In every session of a run a sealed map has no violation: what stands under a recognized key is null or accepted
by the shape of the key. -/
theorem sealed_maps_are_valid (r : Registry) (ks : List Command) (s : Session)
    (h : (start r).afterAll ks = some s) : ∀ c ∈ s.maps, c.isSealed = true →
      c.validate = .ok [] ∧
      ∀ e ∈ c.entries, ∀ shape, r.shape? e.1 = some shape → e.2 = .null ∨ shape.accepts e.2 = true := by
  intro c hc hs
  obtain ⟨hholds, hreg, hfirm⟩ := firm_of_afterAll h
  refine ⟨validate_of_firm hs (hfirm c hc), fun e he shape hshape => ?_⟩
  have hkeys : c.registry.shape? e.1 = r.shape? e.1 := by
    have hsame : c.registry.keys = r.keys := by rw [hholds.registry c hc, hreg]
    cases hk : e.1 <;> simp [Registry.shape?, Registry.key?, Registry.find?, hsame]
  exact ((hfirm c hc hs e he) shape (hkeys.trans hshape)).imp_right Shape.accepts_of_acceptsFrozen

/-- A closed map stays valid when a list in it changes that a read-only map kept from being frozen. -/
theorem map_stays_valid_with_live_list :
    ∃ s, (start ⟨[⟨"meta", some .map, "", false⟩], 1⟩).afterAll
        [⟨"c", "c", .set (.str "meta") (.map [(.str "a", .list [])])⟩,
          ⟨"c", "c", .mutate [.str "meta", .str "a"] .append [.view [(.str "x", .list [])]]⟩,
          ⟨"c", "c", .close true⟩,
          ⟨"c", "c", .mutate [.str "meta", .str "a", .int 0, .str "x"] .append [.int 1]⟩] = some s ∧
      (s.mapAt 0).isSealed = true ∧ (s.mapAt 0).validate = .ok [] := by
  have hrun : ((start ⟨[⟨"meta", some .map, "", false⟩], 1⟩).afterAll
      [⟨"c", "c", .set (.str "meta") (.map [(.str "a", .list [])])⟩,
        ⟨"c", "c", .mutate [.str "meta", .str "a"] .append [.view [(.str "x", .list [])]]⟩,
        ⟨"c", "c", .close true⟩,
        ⟨"c", "c", .mutate [.str "meta", .str "a", .int 0, .str "x"] .append [.int 1]⟩]).map
      (fun s => (s.maps.length, (s.mapAt 0).isSealed)) = some (1, true) := rfl
  obtain ⟨s, hs, hseen⟩ := Option.map_eq_some_iff.mp hrun
  obtain ⟨hlength, hsealed⟩ := Prod.mk.inj hseen
  have hmem : s.mapAt 0 ∈ s.maps := mapAt_mem (by omega)
  exact ⟨s, hs, hsealed, (sealed_maps_are_valid _ _ s hs _ hmem hsealed).1⟩

end Session
end TopologyConfig
