import TopologyConfig.Proofs.ConfigMap.LayerValidity
import TopologyConfig.Proofs.Schema.Renewed
import TopologyConfig.Proofs.Session.Copies
import TopologyConfig.Proofs.Session.Registration

/-!
Handing registries and maps over to another process. A registry can be handed over exactly if it is the standard one or
the tests of all its shapes have names, and then the other process has a registry of the same table. A map of plain
values goes with its registry: what arrives shows what the map shows, and is sealed if the map is.
-/
namespace TopologyConfig

open Value

/-- The test of the shape has a name in its module. -/
def Shape.hasNamedTest : Shape → Bool
  | string | number | integer | identifier | powerOfTwo | serializationEntry => true
  | boolean | map | metricsConsumerEntry | listOf _ | oneOf _ => false

theorem Shape.transferError?_eq_none_iff {s : Shape} {address : Nat} :
    s.transferError? address = none ↔ s.hasNamedTest = true := by
  cases s <;> simp [transferError?, hasNamedTest]

namespace Registry

/-- The standard registry, or one with named tests alone. -/
def IsTransferable (r : Registry) : Prop :=
  r.isStandard = true ∨ ∀ k ∈ r.keys, ∀ s, k.shape = some s → s.hasNamedTest = true

/-- The two registries recognize the same keys in the same order, accumulate the same ones and give the same
verdicts. -/
structure Agrees (r' r : Registry) : Prop where
  names : r'.names = r.names
  accumulatorNames : r'.accumulatorNames = r.accumulatorNames
  validate : ∀ key v, r'.validate key v = r.validate key v

variable {r r' : Registry} {address : Nat}

theorem agrees_of_keys_eq (h : r'.keys = r.keys) : r'.Agrees r where
  names := by rw [names, names, h]
  accumulatorNames := by rw [Registry.accumulatorNames, Registry.accumulatorNames, h]
  validate key v := by
    have hshape : r'.shape? key = r.shape? key := shape?_congr h key
    have hallows : r'.allows key v = r.allows key v := by
      unfold allows
      rw [hshape]
    rw [Registry.validate, Registry.validate, violation?, violation?, hallows, hshape]

theorem Agrees.allows (h : r'.Agrees r) (key v : Value) : r'.allows key v = true ↔ r.allows key v = true := by
  rw [← validate_eq_ok_none_iff, ← validate_eq_ok_none_iff, h.validate]

theorem exists_transfer_iff : (∃ r', r.transfer address = .ok r') ↔ r.IsTransferable := by
  have hnone : r.keys.findSome? (fun k => k.shape.bind (Shape.transferError? address)) = none ↔
      ∀ k ∈ r.keys, ∀ s, k.shape = some s → s.hasNamedTest = true := by
    simp only [List.findSome?_eq_none_iff, Option.bind_eq_none_iff, Shape.transferError?_eq_none_iff]
  unfold transfer IsTransferable
  rw [← hnone]
  cases r.isStandard with
  | true => simp
  | false => cases r.keys.findSome? fun k => k.shape.bind (Shape.transferError? address) <;> simp

/-- The table makes a registry on the other side too. -/
theorem ofKeys_of_transfer {number : Nat} {table : List ConfigKey} (h : ofKeys number table = .ok r)
    (ht : r.transfer address = .ok r') : ofKeys r'.number table = .ok r' := by
  have hkeys := Session.keys_transfer ht
  unfold ofKeys at h ⊢
  split at h
  · cases h
  · cases h
    obtain ⟨keys, number'⟩ := r'
    obtain rfl : keys = table := hkeys
    rfl

end Registry

namespace ConfigMap

variable {c d : ConfigMap} {r : Registry} {stamp address : Nat}

/-- A deep copy exists and shows what the map shows, if a sealed map has no violations. -/
theorem exists_deepCopy (hk : c.entries.HasTextKeys) (hd : c.entries.Distinct)
    (hvalid : c.isSealed = true → ∀ e ∈ c.entries, c.registry.allows e.1 e.2 = true) :
    ∃ d, c.deepCopy.result = .ok d ∧ d.isSealed = c.isSealed ∧ d.Resembles c := by
  rw [deepCopy, rebuild_result hk hd]
  cases hs : c.isSealed with
  | false => exact ⟨_, rfl, rfl, resembles_plainCopy c⟩
  | true =>
    exact ⟨_, toSealed_plainCopy (hvalid hs) true, rfl, (resembles_frozen c.plainCopy).trans (resembles_plainCopy c)⟩

/-- What reaches the other process, before a map is made of it. -/
def received (stamp : Nat) (r : Registry) (c : ConfigMap) : ConfigMap :=
  ⟨r, renewedEntries stamp c.plainEntries, c.isSealed⟩

theorem entries_received (stamp : Nat) (r : Registry) (hk : c.entries.HasTextKeys) :
    (c.received stamp r).entries = mapValues (fun v => v.thaw.renewed stamp) c.entries := by
  have hplain : Entries.HasTextKeys (mapValues thaw c.entries) := Entries.hasTextKeys_mapValues_iff.mpr hk
  rw [received, plainEntries, thawEntries_eq_mapValues, renewedEntries_eq_map,
    map_renewedEntry_of_hasTextKeys stamp hplain, mapValues_mapValues]

theorem plainEntries_received (stamp : Nat) (r : Registry) (hk : c.entries.HasTextKeys) :
    (c.received stamp r).plainEntries = (c.received stamp r).entries := by
  rw [plainEntries, thawEntries_eq_mapValues, entries_received stamp r hk, mapValues_mapValues]
  exact mapValues_congr fun e _ => thaw_renewed_thaw stamp e.2

theorem toValue_received (stamp : Nat) (r : Registry) (hk : c.entries.HasTextKeys) :
    (c.received stamp r).toValue = c.toValue.renewed stamp := by
  rw [toValue, plainEntries_received stamp r hk, toValue, renewed, received]

/-- A map is handed over as a deep copy of what is received. -/
theorem transfer_eq_deepCopy (hk : c.entries.HasTextKeys) (hv : c.toValue.transferError? = none)
    (hr : c.registry.transfer address = .ok r) : c.transfer stamp address = (c.received stamp r).deepCopy := by
  rw [deepCopy, plainEntries_received stamp r hk, transfer, Value.transfer, hv, hr]
  rfl

/-- A map that is handed over takes its registry with it. -/
theorem exists_registry_of_transfer (h : (c.transfer stamp address).result = .ok d) :
    ∃ r, c.registry.transfer address = .ok r := by
  unfold transfer at h
  split at h
  · cases h
  · cases h
  · next r _ hr => exact ⟨r, hr⟩

/-- The map of the other process shows the same values under the same keys, and is sealed if the map is. -/
structure ArrivesAs (c d : ConfigMap) (stamp : Nat) : Prop where
  isSealed : d.isSealed = c.isSealed
  keys : Entries.keys d.entries = Entries.keys c.entries
  registry : d.registry.Agrees c.registry
  toValue : d.toValue = c.toValue.renewed stamp

theorem exists_transfer (hk : c.entries.HasTextKeys) (hd : c.entries.Distinct)
    (hvalid : c.isSealed = true → ∀ e ∈ c.entries, c.registry.allows e.1 e.2 = true)
    (hv : c.toValue.transferError? = none) (hr : c.registry.transfer address = .ok r) :
    ∃ d, (c.transfer stamp address).result = .ok d ∧ c.ArrivesAs d stamp := by
  have hentries := entries_received stamp r hk
  have hagrees : r.Agrees c.registry := Registry.agrees_of_keys_eq (Session.keys_transfer hr)
  have hkeys : (c.received stamp r).entries.HasTextKeys := by rwa [hentries, Entries.hasTextKeys_mapValues_iff]
  have hdistinct : (c.received stamp r).entries.Distinct := hentries ▸ Entries.distinct_mapValues hd
  have hallowed (hs : (c.received stamp r).isSealed = true) :
      ∀ e ∈ (c.received stamp r).entries, r.allows e.1 e.2 = true := by
    rw [hentries]
    intro e he
    obtain ⟨e', he', rfl⟩ := mem_mapValues.mp he
    exact (hagrees.allows _ _).mpr (Registry.allows_renewed stamp (Registry.allows_thaw (hvalid hs e' he')))
  obtain ⟨d, hresult, hsealed, hresembles⟩ := exists_deepCopy hkeys hdistinct hallowed
  refine ⟨d, by rw [transfer_eq_deepCopy hk hv hr, hresult], hsealed, ?_, ?_, ?_⟩
  · rw [hresembles.keys, hentries, Entries.keys_mapValues]
  · rw [hresembles.registry]
    exact hagrees
  · rw [hresembles.plain, toValue_received stamp r hk]

end ConfigMap

namespace Session

open ConfigMap

/-- A registry of an accepted table is handed over exactly if it is the standard one or the tests of all its shapes have
names, and arrives as one of the same table. So it is with the maps of every session over it whose keys are texts and
that hold no class and no opaque object: they arrive as they are, but for floats that are no number. -/
theorem transfer_succeeds_iff (number : Nat) (table : List ConfigKey) (r : Registry)
    (hr : Registry.ofKeys number table = .ok r) :
    (∀ address, (∃ r', r.transfer address = .ok r') ↔ r.IsTransferable) ∧
    (∀ address r', r.transfer address = .ok r' → Registry.ofKeys r'.number table = .ok r' ∧ r'.Agrees r) ∧
    ∀ ks s, (start r).afterAll ks = some s →
      ∀ c ∈ s.maps, c.entries.HasTextKeys → MadeOf (fun v => v.isPortable = true) c.toValue → ∀ stamp address,
        ((∃ d, (c.transfer stamp address).result = .ok d) ↔ c.registry.IsTransferable) ∧
        ∀ d, (c.transfer stamp address).result = .ok d → c.ArrivesAs d stamp ∧
          (MadeOf (fun v => v.isNaN = false) c.toValue → d.toValue = c.toValue) := by
  refine ⟨fun _ => Registry.exists_transfer_iff, fun _ r' ht => ?_, fun ks s h c hc hkeys hdata stamp address => ?_⟩
  · exact ⟨Registry.ofKeys_of_transfer hr ht, Registry.agrees_of_keys_eq (keys_transfer ht)⟩
  · obtain ⟨hholds, -, hfirm⟩ := firm_of_afterAll h
    have hdistinct : c.entries.Distinct := (hholds.entries c hc).distinct
    have hvalid (hs : c.isSealed = true) : ∀ e ∈ c.entries, c.registry.allows e.1 e.2 = true := fun e he =>
      Registry.allows_of_allowsFrozen (hfirm c hc hs e he)
    have harrives {r' : Registry} (ht : c.registry.transfer address = .ok r') :
        ∃ d, (c.transfer stamp address).result = .ok d ∧ c.ArrivesAs d stamp :=
      exists_transfer hkeys hdistinct hvalid hdata.transferError? ht
    refine ⟨?_, fun d hd => ?_⟩
    · refine Iff.trans ⟨fun ⟨d, hd⟩ => exists_registry_of_transfer hd, fun ⟨r', ht⟩ => ?_⟩ Registry.exists_transfer_iff
      exact (harrives ht).imp fun d hd => hd.1
    · obtain ⟨r', ht⟩ := exists_registry_of_transfer hd
      obtain ⟨d', hd', hd'arrives⟩ := harrives ht
      obtain rfl : d' = d := Except.ok.inj (hd'.symm.trans hd)
      exact ⟨hd'arrives, fun hnumbers => hd'arrives.toValue.trans (hnumbers.renewed_eq stamp)⟩

/-- A sealed map with a text under a recognized key and a list of bytes under another one. -/
theorem sealed_map_of_texts_is_handed_over :
    ∃ s, (start ⟨[⟨"name", some .string, "", false⟩], 1⟩).afterAll
        [⟨"c", "c", .set (.str "name") (.str "x")⟩,
          ⟨"c", "c", .set (.str "free") (.tuple [.bytes [0], .null])⟩,
          ⟨"c", "c", .close true⟩] = some s ∧
      (s.mapAt 0).isSealed = true ∧
      ∃ d, ((s.mapAt 0).transfer 1 0).result = .ok d ∧ (s.mapAt 0).ArrivesAs d 1 ∧
        d.toValue = .map [(.str "name", .str "x"), (.str "free", .list [.bytes [0], .null])] := by
  have hrun : ((start ⟨[⟨"name", some .string, "", false⟩], 1⟩).afterAll
      [⟨"c", "c", .set (.str "name") (.str "x")⟩,
        ⟨"c", "c", .set (.str "free") (.tuple [.bytes [0], .null])⟩,
        ⟨"c", "c", .close true⟩]).map (fun s => (s.maps.length, s.mapAt 0)) =
      some (1, ⟨⟨[⟨"name", some .string, "", false⟩], 1⟩,
        [(.str "name", .str "x"), (.str "free", .frozenList [.bytes [0], .null])], true⟩) := rfl
  obtain ⟨s, hs, hseen⟩ := Option.map_eq_some_iff.mp hrun
  obtain ⟨hlength, hmap⟩ := Prod.mk.inj hseen
  have hmem : s.mapAt 0 ∈ s.maps := mapAt_mem (by omega)
  have hvalue : (s.mapAt 0).toValue = .map [(.str "name", .str "x"), (.str "free", .list [.bytes [0], .null])] := by
    rw [hmap]
    rfl
  have hmade {P : Value → Prop} (h : ∀ v, v.isPortable = true ∧ v.isNaN = false → P v) :
      MadeOf P (s.mapAt 0).toValue := by
    have htext (text : String) : MadeOf P (.str text) := .leaf _ rfl (h _ ⟨rfl, rfl⟩)
    have hbytes : MadeOf P (.bytes [0]) := .leaf _ rfl (h _ ⟨rfl, rfl⟩)
    have hnull : MadeOf P .null := .leaf _ rfl (h _ ⟨rfl, rfl⟩)
    have hlist : MadeOf P (.list [.bytes [0], .null]) := .list _ (by simp [hbytes, hnull])
    exact hvalue ▸ .map _ (by simp [htext]) (by simp [htext, hlist])
  have hkeys : (s.mapAt 0).entries.HasTextKeys := by
    rw [hmap]
    simp [Entries.HasTextKeys, isString]
  have htransferable : (s.mapAt 0).registry.IsTransferable := by
    rw [hmap]
    exact .inr (by simp [Shape.hasNamedTest])
  obtain ⟨-, -, hmaps⟩ := transfer_succeeds_iff 1 [⟨"name", some .string, "", false⟩] _ rfl
  obtain ⟨hsucceeds, harrives⟩ := hmaps _ s hs _ hmem hkeys (hmade fun _ hv => hv.1) 1 0
  obtain ⟨d, hd⟩ := hsucceeds.mpr htransferable
  obtain ⟨hd', hsame⟩ := harrives d hd
  exact ⟨s, hs, by rw [hmap], d, hd, hd', (hsame (hmade fun _ hv => hv.2)).trans hvalue⟩

/-- The test of a list of strings is made by a function, and has no name outside of it. -/
theorem registry_of_string_lists_is_not_handed_over :
    ∃ r, Registry.ofKeys 1 [⟨"a", some .strings, "", false⟩] = .ok r ∧
      ∀ address, r.transfer address = .error (.localTest "list_of.<locals>.predicate") :=
  ⟨⟨[⟨"a", some .strings, "", false⟩], 1⟩, rfl, fun _ => rfl⟩

end Session
end TopologyConfig
