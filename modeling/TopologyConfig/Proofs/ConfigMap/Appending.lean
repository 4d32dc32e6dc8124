import TopologyConfig.ConfigMap.Append
import TopologyConfig.Proofs.ConfigMap.Copying
import TopologyConfig.Proofs.Value.Proper

/-!
Entries appended one by one, and entries merged as a layer: in plain form, both put the same list under the key.
-/
namespace TopologyConfig

open Value

namespace ConfigMap

variable {c : ConfigMap} {name : String} {x v : Value} {xs : List Value}

/-- Appends entries one after the other, up to the first one that is refused. -/
def appendAll (c : ConfigMap) (key : Value) : List Value → Except ConfigError ConfigMap
  | [] => .ok c
  | x :: xs =>
    match (c.append key x).outcome.result with
    | .ok () => appendAll (c.append key x).after key xs
    | .error e => .error e

/-- The map with a list under a name: what stood there as entries, and further ones in plain form. -/
def extendedBy (c : ConfigMap) (name : String) (xs : List Value) : ConfigMap :=
  { c with
    entries := Entries.put (.str name)
      (.list (asEntries ((Entries.get? c.entries (.str name)).getD .null) ++ xs.map thaw)) c.entries }

theorem entryViolation?_eq_none (h : ∀ s, c.registry.element? (.str name) = some s → s.accepts x = true) :
    entryViolation? c.registry (.str name) x = none := by
  unfold entryViolation?
  split
  · rfl
  · rename_i s hs
    rw [if_pos (h s hs)]

theorem append_of_accepts (ho : c.isSealed = false)
    (h : ∀ s, c.registry.element? (.str name) = some s → s.accepts x = true) :
    (c.append (.str name) x).outcome.result = .ok () ∧ (c.append (.str name) x).after = c.extendedBy name [x] := by
  have hkey : hashable (.str name) = .ok () := rfl
  have hrecord (count : Nat) : (appendRecord (.str name) count).result = .ok () := rfl
  simp [append, ho, hkey, entryViolation?_eq_none h, hrecord, extendedBy, extended]

theorem extendedBy_extendedBy (c : ConfigMap) (name : String) (xs ys : List Value) :
    (c.extendedBy name xs).extendedBy name ys = c.extendedBy name (xs ++ ys) := by
  simp [extendedBy, Entries.get?_put_str_self, Entries.put_put_str, asEntries, listItems?]

theorem appendAll_of_accepts (ho : c.isSealed = false) (hne : xs ≠ [])
    (h : ∀ s, c.registry.element? (.str name) = some s → ∀ x ∈ xs, s.accepts x = true) :
    c.appendAll (.str name) xs = .ok (c.extendedBy name xs) := by
  induction xs generalizing c with
  | nil => exact absurd rfl hne
  | cons x xs ih =>
    have hfirst := append_of_accepts ho fun s hs => h s hs x List.mem_cons_self
    rw [appendAll, hfirst.1, hfirst.2]
    by_cases hxs : xs = []
    · rw [hxs, appendAll]
    · have hrest := ih (c := c.extendedBy name [x]) ho hxs fun s hs y hy => h s hs y (List.mem_cons_of_mem x hy)
      rw [hrest, extendedBy_extendedBy, List.singleton_append]

/-- What stands under a key contributes its entries to a merge. -/
theorem contribution_eq_map_thaw_asEntries {count : Nat} (h : Proper count v) (ht : v.isTuple = false) :
    contribution v = (asEntries v).map thaw := by
  cases h with
  | leaf v h => cases v <;> first | rfl | exact absurd h Bool.false_ne_true
  | tuple xs _ => cases ht
  | labelled l v hc _ => cases v <;> first | rfl | exact absurd hc Bool.false_ne_true
  | _ => rfl

theorem plainEntries_extendedBy
    (h : ∀ v, Entries.get? c.entries (.str name) = some v → contribution v = (asEntries v).map thaw) :
    (c.extendedBy name xs).plainEntries = Entries.put (.str name)
      (.list (contribution ((Entries.get? c.entries (.str name)).getD .null) ++ xs.map thaw)) c.plainEntries := by
  have hheld : (asEntries ((Entries.get? c.entries (.str name)).getD .null)).map thaw =
      contribution ((Entries.get? c.entries (.str name)).getD .null) := by
    cases hg : Entries.get? c.entries (.str name) with
    | none => rfl
    | some v => exact (h v hg).symm
  rw [plainEntries, thawEntries_eq_mapValues, extendedBy, Entries.mapValues_put, thaw_list, List.map_append, hheld,
    map_thaw_map_thaw, plainEntries, thawEntries_eq_mapValues]

/-- A layer with a list under an accumulator key, merged onto a map. -/
theorem merge_list (r : Registry) (number : Option Nat) (hk : c.entries.HasTextKeys) (hd : c.entries.Distinct)
    (ha : r.isAccumulator (.str name) = true) (xs : List Value) :
    ∃ d, (merge r (.config number c.isSealed c.entries) (.map [(.str name, .list xs)])).result = .ok d ∧ d.isSealed = false ∧
      d.plainEntries = Entries.put (.str name)
        (.list (contribution ((Entries.get? c.entries (.str name)).getD .null) ++ xs.map thaw)) c.plainEntries := by
  obtain ⟨ys, hys⟩ : ∃ ys, contribution ((Entries.get? c.entries (.str name)).getD .null) ++ xs.map thaw = ys := ⟨_, rfl⟩
  have hbase : ofValue r (.config number c.isSealed c.entries) = .ok ⟨r, mapValues thaw c.entries, false⟩ := ofEntries_of_distinct r hk hd
  have hheld : asEntries (((Entries.get? c.entries (.str name)).map thaw).getD .null) =
      contribution ((Entries.get? c.entries (.str name)).getD .null) := by
    cases Entries.get? c.entries (.str name) with
    | none => rfl
    | some v => exact asEntries_thaw v
  have hcombined : combined true ((Entries.get? c.entries (.str name)).map thaw) (.list xs) = .list ys := by
    rw [← hys, ← map_thaw_contribution, ← hheld]
    rfl
  have hmerged : mergeEntries ⟨r, mapValues thaw c.entries, false⟩ [(.str name, .list xs)] =
      .ok ⟨r, Entries.put (.str name) (.list ys) (mapValues thaw c.entries), false⟩ := by
    rw [mergeEntries, mergeEntry_str rfl, ha, Entries.get?_mapValues, hcombined]
    rfl
  refine ⟨⟨r, Entries.put (.str name) (.list ys) (mapValues thaw c.entries), false⟩, ?_, rfl, ?_⟩
  · rw [merge, hbase]
    simp only [mapping?, hmerged]
  · have hplain : ys.map thaw = ys := by rw [← hys, List.map_append, map_thaw_contribution, map_thaw_map_thaw]
    rw [hys, plainEntries, plainEntries, thawEntries_eq_mapValues, thawEntries_eq_mapValues, Entries.mapValues_put,
      thaw_list, hplain, mapValues_mapValues, mapValues_congr fun e _ => thaw_thaw e.2]

end ConfigMap
end TopologyConfig
