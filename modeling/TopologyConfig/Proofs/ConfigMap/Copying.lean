import TopologyConfig.Proofs.ConfigMap.Layers

/-!
Copies and merges exist exactly if the keys are texts. A copy of a sealed map may also fail when it is sealed, but
not on a key.
-/
namespace TopologyConfig

open Value

/-- All keys are texts. -/
def Entries.HasTextKeys (es : Entries) : Prop := ∀ e ∈ es, e.1.isString = true

namespace Entries

theorem not_hasTextKeys_iff {es : Entries} : ¬ es.HasTextKeys ↔ ∃ e ∈ es, e.1.isString = false := by
  simp [HasTextKeys]

theorem hasTextKeys_mapValues_iff {es : Entries} {f : Value → Value} :
    HasTextKeys (mapValues f es) ↔ es.HasTextKeys := by
  unfold HasTextKeys mapValues
  rw [List.forall_mem_map]

end Entries

namespace ConfigMap

variable {c d : ConfigMap}

/-- The operation failed because a key is no text. -/
def FailsOnKey {α : Type} (r : Except ConfigError α) : Prop := ∃ name, r = .error (.keyNotString name)

theorem ofEntries_eq_ok_iff {r : Registry} {es : Entries} : (∃ d, ofEntries r es = .ok d) ↔ es.HasTextKeys := by
  constructor
  · rintro ⟨d, hd⟩
    by_contra hnot
    obtain ⟨name, he⟩ := ofEntries_eq_keyNotString r (Entries.not_hasTextKeys_iff.mp hnot)
    simp [he] at hd
  · exact fun h => ⟨_, ofEntries_of_isString r h⟩

/-- Entries under distinct texts make an open map that holds them in plain form. -/
theorem ofEntries_of_distinct (r : Registry) {es : Entries} (hk : es.HasTextKeys) (hd : es.Distinct) :
    ofEntries r es = .ok ⟨r, mapValues thaw es, false⟩ := by
  rw [ofEntries_of_isString r hk, Entries.putAll_of_distinct (Entries.distinct_mapValues hd)]

theorem ofValue_of_mapping? {r : Registry} {v : Value} {es : Entries} (h : v.mapping? = some es) :
    ofValue r v = ofEntries r es := by
  cases v <;> simp_all [ofValue, mapping?]

theorem copy_eq_ok_iff (c : ConfigMap) : (∃ d, c.copy = .ok d) ↔ c.entries.HasTextKeys := ofEntries_eq_ok_iff

theorem not_failsOnKey_toSealed (c : ConfigMap) (collect : Bool) : ¬ FailsOnKey (c.toSealed collect).result := by
  rintro ⟨name, h⟩
  unfold toSealed at h
  split at h
  · cases h
  · dsimp only at h
    split at h
    · cases h
    · cases h
    · split at h
      · split at h <;> cases h
      · cases h

theorem failsOnKey_deepCopy_iff (c : ConfigMap) : FailsOnKey c.deepCopy.result ↔ ¬ c.entries.HasTextKeys := by
  have hplain : Entries.HasTextKeys c.plainEntries ↔ c.entries.HasTextKeys := by
    rw [plainEntries, thawEntries_eq_mapValues, Entries.hasTextKeys_mapValues_iff]
  rw [← hplain, deepCopy, rebuild]
  constructor
  · intro h hkeys
    rw [ofEntries_of_isString c.registry hkeys] at h
    dsimp only at h
    split at h
    · exact not_failsOnKey_toSealed _ true h
    · obtain ⟨name, h⟩ := h
      cases h
  · intro hnot
    obtain ⟨name, he⟩ := ofEntries_eq_keyNotString c.registry (Entries.not_hasTextKeys_iff.mp hnot)
    exact ⟨name, by rw [he]; rfl⟩

theorem mergeEntry_of_not_isString (ho : c.isSealed = false) {key : Value} (hk : key.isString = false)
    (v : Value) : c.mergeEntry key v = .error (.keyNotString key.typeName) := by
  have hnot : c.registry.isAccumulator key = false := by
    cases key <;> first | rfl | simp [isString] at hk
  simp [mergeEntry, hnot, set_of_not_isString ho hk]

theorem mergeEntries_eq_ok_iff (ho : c.isSealed = false) (es : Entries) :
    (∃ d, mergeEntries c es = .ok d) ↔ es.HasTextKeys := by
  induction es generalizing c with
  | nil => simp [mergeEntries, Entries.HasTextKeys]
  | cons e es ih =>
    obtain ⟨key, v⟩ := e
    cases hk : key.isString with
    | true =>
      obtain ⟨s, rfl⟩ := exists_str_of_isString hk
      obtain ⟨d, hd, hod⟩ : ∃ d, c.mergeEntry (.str s) v = .ok d ∧ d.isSealed = false :=
        ⟨_, mergeEntry_str ho s v, ho⟩
      have hrest : (∃ d', mergeEntries d es = .ok d') ↔ Entries.HasTextKeys es := ih hod
      simp [mergeEntries, hd, bind, Except.bind, hrest, Entries.HasTextKeys, hk]
    | false =>
      simp [mergeEntries, mergeEntry_of_not_isString ho hk, bind, Except.bind, Entries.HasTextKeys, hk]

theorem merge_eq_ok_iff (r : Registry) {base overlay : Value} {bs os : Entries} (hb : base.mapping? = some bs)
    (ho : overlay.mapping? = some os) :
    (∃ d, (merge r base overlay).result = .ok d) ↔ bs.HasTextKeys ∧ os.HasTextKeys := by
  rw [merge, ofValue_of_mapping? hb]
  by_cases hkeys : bs.HasTextKeys
  · rw [ofEntries_of_isString r hkeys]
    have hover := mergeEntries_eq_ok_iff (c := ⟨r, Entries.putAll [] (mapValues thaw bs), false⟩) rfl os
    rw [← hover]
    cases hm : mergeEntries ⟨r, Entries.putAll [] (mapValues thaw bs), false⟩ os <;>
      simp [hkeys, ho, hb, hm, Logged.failed]
  · obtain ⟨name, he⟩ := ofEntries_eq_keyNotString r (Entries.not_hasTextKeys_iff.mp hkeys)
    simp [he, hkeys, Logged.failed]

end ConfigMap
end TopologyConfig
