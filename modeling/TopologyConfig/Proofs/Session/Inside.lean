import TopologyConfig.Proofs.Session.Walk

/-!
What stands inside a value. The walks through a session change it value by value: refreshing stops at the
configurations, whose contents stand in the session, and relabelling at the label that it looks for.
-/
namespace TopologyConfig.Value

/-- The values that stand directly in a value. What a configuration holds stands in the session instead. -/
def inside : Value → List Value
  | list xs | frozenList xs | tuple xs => xs
  | map es | frozenMap es | view es => es.map (·.2)
  | labelled _ v => [v]
  | _ => []

/-- The value with what stands directly in it changed. -/
def mapInside (f : Value → Value) : Value → Value
  | list xs => list (xs.map f)
  | frozenList xs => frozenList (xs.map f)
  | tuple xs => tuple (xs.map f)
  | map es => map (mapValues f es)
  | frozenMap es => frozenMap (mapValues f es)
  | view es => view (mapValues f es)
  | labelled l v => labelled l (f v)
  | v => v

/-- The value is a configuration of the session. -/
def IsHeld (v : Value) : Prop := ∃ n b es, v = config (some n) b es

variable {f g : Value → Value} {v : Value}

theorem inside_mapInside (f : Value → Value) (v : Value) : (mapInside f v).inside = v.inside.map f := by
  cases v <;> simp [mapInside, inside, mapValues]

theorem mapInside_congr (h : ∀ x ∈ v.inside, f x = g x) : mapInside f v = mapInside g v := by
  have hentries {es : Entries} (h : ∀ x ∈ es.map (·.2), f x = g x) : mapValues f es = mapValues g es :=
    mapValues_congr fun e he => h e.2 (List.mem_map_of_mem he)
  cases v with
  | list xs => exact congrArg list (List.map_congr_left h)
  | frozenList xs => exact congrArg frozenList (List.map_congr_left h)
  | tuple xs => exact congrArg tuple (List.map_congr_left h)
  | map es => exact congrArg map (hentries h)
  | frozenMap es => exact congrArg frozenMap (hentries h)
  | view es => exact congrArg view (hentries h)
  | labelled l v => exact congrArg (labelled l) (h v (by simp [inside]))
  | _ => rfl

theorem mapInside_mapInside (f g : Value → Value) (v : Value) :
    mapInside f (mapInside g v) = mapInside (fun x => f (g x)) v := by
  cases v <;> simp [mapInside, mapValues]

theorem mapInside_eq_self (h : ∀ x ∈ v.inside, f x = x) : mapInside f v = v := by
  rw [mapInside_congr h]
  cases v <;> simp [mapInside, mapValues]

/-- Induction over what stands in a value, down to the configurations of the session. -/
@[elab_as_elim]
theorem inside_induction {P : Value → Prop} (held : ∀ n b es, P (config (some n) b es))
    (other : ∀ v, ¬ v.IsHeld → (∀ x ∈ v.inside, P x) → P v) (v : Value) : P v := by
  have hother (v : Value) (h : ∀ x ∈ v.inside, P x) : P v := by
    by_cases hh : v.IsHeld
    · obtain ⟨n, b, es, rfl⟩ := hh
      exact held n b es
    · exact other v hh h
  induction v using induction with
  | leaf v hl => exact hother v (by cases v <;> first | exact absurd hl Bool.false_ne_true | simp [inside])
  | list xs ih => exact hother _ ih
  | frozenList xs ih => exact hother _ ih
  | tuple xs ih => exact hother _ ih
  | map es ih => exact hother _ (List.forall_mem_map.mpr ih)
  | frozenMap es ih => exact hother _ (List.forall_mem_map.mpr ih)
  | view es ih => exact hother _ (List.forall_mem_map.mpr ih)
  | labelled l v ih => exact hother _ (by simpa [inside] using ih)
  | _ => exact hother _ (by simp [inside])

/-- The configuration with the number stands somewhere in the value. -/
inductive HoldsMap (n : Nat) : Value → Prop where
  | itself (isSealed : Bool) (es : Entries) : HoldsMap n (.config (some n) isSealed es)
  | inside (v x : Value) (hx : x ∈ v.inside) (h : HoldsMap n x) : HoldsMap n v

theorem holdsMap_config_iff {n m : Nat} {b : Bool} {es : Entries} : HoldsMap n (config (some m) b es) ↔ m = n := by
  refine ⟨fun h => ?_, fun h => h ▸ .itself b es⟩
  cases h with
  | itself => rfl
  | inside _ x hx _ => cases hx

theorem holdsMap_iff_inside {n : Nat} (hv : ¬ v.IsHeld) : HoldsMap n v ↔ ∃ x ∈ v.inside, HoldsMap n x := by
  refine ⟨fun h => ?_, fun ⟨x, hx, h⟩ => .inside v x hx h⟩
  cases h with
  | itself b es => exact absurd ⟨n, b, es, rfl⟩ hv
  | inside _ x hx h => exact ⟨x, hx, h⟩

section refreshed

variable {maps maps' : List ConfigMap}

theorem refreshed_eq_mapInside (hv : ¬ v.IsHeld) : v.refreshed maps = mapInside (refreshed maps) v := by
  cases v with
  | config number b es =>
    cases number with
    | none => rfl
    | some n => exact absurd ⟨n, b, es, rfl⟩ hv
  | _ => simp [refreshed, mapInside, refreshedItems_eq_map, refreshedEntries_eq_mapValues]

theorem refreshed_config_of_some {n : Nat} {b : Bool} {es : Entries} {c : ConfigMap} (h : maps[n]? = some c) :
    (config (some n) b es).refreshed maps = config (some n) c.isSealed c.entries := by
  rw [refreshed, Option.bind_some, h]

theorem refreshed_config_of_none {n : Nat} {b : Bool} {es : Entries} (h : maps[n]? = none) :
    (config (some n) b es).refreshed maps = config (some n) b es := by
  rw [refreshed, Option.bind_some, h]

theorem exists_refreshed_config (maps : List ConfigMap) (n : Nat) (b : Bool) (es : Entries) :
    ∃ b' es', (config (some n) b es).refreshed maps = config (some n) b' es' := by
  rw [refreshed]
  split <;> exact ⟨_, _, rfl⟩

theorem isHeld_mapInside_iff : (mapInside f v).IsHeld ↔ v.IsHeld := by
  cases v <;> simp [mapInside, IsHeld]

/-- The last refreshing counts. -/
theorem refreshed_refreshed (h : maps.length = maps'.length) (v : Value) :
    (v.refreshed maps).refreshed maps' = v.refreshed maps' := by
  induction v using inside_induction with
  | held n b es =>
    rcases Nat.lt_or_ge n maps.length with hn | hn
    · rw [refreshed_config_of_some (List.getElem?_eq_getElem hn),
        refreshed_config_of_some (List.getElem?_eq_getElem (h ▸ hn)),
        refreshed_config_of_some (List.getElem?_eq_getElem (h ▸ hn))]
    · have hnone : maps[n]? = none := List.getElem?_eq_none hn
      rw [refreshed_config_of_none hnone]
  | other v hv ih =>
    rw [refreshed_eq_mapInside hv, refreshed_eq_mapInside (fun hm => hv (isHeld_mapInside_iff.mp hm)),
      mapInside_mapInside, refreshed_eq_mapInside hv]
    exact mapInside_congr ih

/-- Only the maps that a value holds matter for its contents. -/
theorem refreshed_congr (h : ∀ n, HoldsMap n v → maps[n]? = maps'[n]?) : v.refreshed maps = v.refreshed maps' := by
  induction v using inside_induction with
  | held n b es => rw [refreshed, refreshed, Option.bind_some, Option.bind_some, h n (.itself b es)]
  | other v hv ih =>
    rw [refreshed_eq_mapInside hv, refreshed_eq_mapInside hv]
    exact mapInside_congr fun x hx => ih x hx fun n hn => h n (.inside v x hx hn)

/-- Refreshing keeps the numbers of the configurations inside. -/
theorem holdsMap_refreshed {n : Nat} : HoldsMap n (v.refreshed maps) ↔ HoldsMap n v := by
  induction v using inside_induction with
  | held m b es =>
    obtain ⟨b', es', h⟩ := exists_refreshed_config maps m b es
    rw [h, holdsMap_config_iff, holdsMap_config_iff]
  | other v hv ih =>
    rw [refreshed_eq_mapInside hv, holdsMap_iff_inside hv,
      holdsMap_iff_inside (fun hm => hv (isHeld_mapInside_iff.mp hm)), inside_mapInside]
    refine ⟨fun ⟨y, hy, h⟩ => ?_, fun ⟨x, hx, h⟩ => ⟨_, List.mem_map_of_mem hx, (ih x hx).mpr h⟩⟩
    obtain ⟨x, hx, rfl⟩ := List.mem_map.mp hy
    exact ⟨x, hx, (ih x hx).mp h⟩

theorem itemsHoldConfig_eq_any (xs : List Value) : itemsHoldConfig xs = xs.any holdsConfig := by
  induction xs with
  | nil => rfl
  | cons x xs ih => simp [itemsHoldConfig, ih]

theorem entriesHoldConfig_eq_any (es : Entries) : entriesHoldConfig es = es.any (·.2.holdsConfig) := by
  induction es with
  | nil => rfl
  | cons e es ih => simp [entriesHoldConfig, ih]

theorem holdsConfig_inside {x : Value} (h : v.holdsConfig = false) (hx : x ∈ v.inside) : x.holdsConfig = false := by
  cases v <;> simp_all [holdsConfig, inside, itemsHoldConfig_eq_any, entriesHoldConfig_eq_any]
  all_goals grind

theorem not_holdsMap_of_holdsConfig {n : Nat} (h : v.holdsConfig = false) : ¬ HoldsMap n v := by
  intro hn
  induction hn with
  | itself => cases h
  | inside v x hx _ ih => exact ih (holdsConfig_inside h hx)

theorem refreshed_of_holdsConfig_eq_false (h : v.holdsConfig = false) : v.refreshed maps = v := by
  induction v using inside_induction with
  | held n b es => cases h
  | other v hv ih =>
    rw [refreshed_eq_mapInside hv]
    exact mapInside_eq_self fun x hx => ih x hx (holdsConfig_inside h hx)

end refreshed

section relabelled

variable {label : Nat} {contents : Value}

theorem relabelled_eq_mapInside (hv : ∀ x, v ≠ labelled label x) :
    relabelled label contents v = mapInside (relabelled label contents) v := by
  cases v with
  | labelled l x =>
    have hl : l ≠ label := fun h => hv x (h ▸ rfl)
    rw [relabelled, if_neg hl, mapInside]
  | _ => simp [relabelled, mapInside, relabelledItems_eq_map, relabelledEntries_eq_mapValues]

theorem relabelled_label (x : Value) : relabelled label contents (labelled label x) = labelled label contents := by
  rw [relabelled, if_pos rfl]

/-- Contents that hold no configuration bring none in. -/
theorem holdsMap_of_relabelled {n : Nat} (hc : ∀ n, ¬ HoldsMap n contents)
    (h : HoldsMap n (relabelled label contents v)) : HoldsMap n v := by
  induction v using inside_induction with
  | held m b es => exact h
  | other v hv ih =>
    by_cases hl : ∃ x, v = labelled label x
    · obtain ⟨x, rfl⟩ := hl
      rw [relabelled_label, holdsMap_iff_inside (by simp [IsHeld])] at h
      obtain ⟨y, hy, h⟩ := h
      cases List.mem_singleton.mp hy
      exact absurd h (hc n)
    · rw [relabelled_eq_mapInside fun x hx => hl ⟨x, hx⟩,
        holdsMap_iff_inside (fun hm => hv (isHeld_mapInside_iff.mp hm)), inside_mapInside] at h
      obtain ⟨y, hy, h⟩ := h
      obtain ⟨x, hx, rfl⟩ := List.mem_map.mp hy
      exact .inside v x hx (ih x hx h)

end relabelled

end TopologyConfig.Value
