import TopologyConfig.Proofs.Session.Path

/-!
Changes in place that show. Whatever can change in place has a method that changes its plain form, and the change
shows in every value in which it stands, in those of sealed maps as well.
-/
namespace TopologyConfig

open Value ConfigMap Relation

namespace Value

variable {v w : Value} {xs : List Value} {es : Entries}

/-- The method makes a list, map or set into one that holds no configuration and has another plain form. -/
structure Alters (m : Method) (args : List Value) (v w : Value) : Prop where
  values : ∀ a ∈ args, ∀ count, Proper count a
  after : (v.apply m args).after = w
  bare (next : Nat) : (w.withLabels next).1.bare = w
  holdsConfig : w.holdsConfig = false
  thaw : w.thaw ≠ v.thaw

/-- A list, map or set with something in it can be emptied, and an empty one can be filled. -/
theorem exists_alters (h : v.isContainer = true) : ∃ m args w, Alters m args v w := by
  have hnull (count : Nat) : Proper count .null := .leaf _ rfl
  cases v with
  | list xs =>
    cases xs with
    | nil => exact ⟨.append, [.null], .list [.null], by simpa using hnull, rfl, fun _ => rfl, rfl, by simp⟩
    | cons x xs => exact ⟨.clear, [], .list [], by simp, rfl, fun _ => rfl, rfl, by simp⟩
  | set xs =>
    cases xs with
    | nil =>
      refine ⟨.update, [.list [.null]], .set [.null], ?_, rfl, fun _ => rfl, rfl, by simp⟩
      simpa using fun count => Proper.list [.null] (by simpa using hnull count)
    | cons x xs => exact ⟨.clear, [], .set [], by simp, rfl, fun _ => rfl, rfl, by simp⟩
  | map es =>
    cases es with
    | nil =>
      refine ⟨.setItem, [.str "x", .null], .map [(.str "x", .null)], ?_, rfl, fun _ => rfl, rfl, by simp [mapValues]⟩
      simpa using ⟨fun count => Proper.leaf (.str "x") rfl, hnull⟩
    | cons e es => exact ⟨.clear, [], .map [], by simp, rfl, fun _ => rfl, rfl, by simp [mapValues]⟩
  | _ => exact absurd h Bool.false_ne_true

end Value

namespace ConfigMap

variable {c : ConfigMap}

theorem applyMethod_clear (ho : c.isSealed = false) :
    (c.applyMethod .clear []).after = { c with entries := [] } := by
  have hbind : (Signature.mk "ConfigMap.clear" [⟨"self", none⟩]).bind (c.asLayer :: []) [] = .ok [c.asLayer] := rfl
  simp [applyMethod, Method.operandMisuse?, Method.operands?, signatureOf?, hbind, applyBound, clear, ensureOpen, ho,
    MethodOutcome.silent, MethodOutcome.changed, bind, Except.bind, pure, Except.pure, Except.map]

theorem applyMethod_setItem (ho : c.isSealed = false) (hes : c.entries = []) :
    (c.applyMethod .setItem [.str "x", .null]).after = { c with entries := [(.str "x", .null)] } := by
  simp [applyMethod, Method.operandMisuse?, Method.operands?, signatureOf?, applyBound, ConfigMap.set, ensureOpen, ho,
    hes, MethodOutcome.silent, MethodOutcome.changed, bind, Except.bind, pure, Except.pure, Except.map, isString,
    Entries.put]

/-- An open map with entries can be emptied, and an empty one can get an entry. -/
theorem exists_applyMethod_ne (ho : c.isSealed = false) :
    ∃ m args es, (∀ a ∈ args, ∀ count, Proper count a) ∧ m ≠ .update ∧
      (c.applyMethod m args).after = { c with entries := es } ∧ (∀ e ∈ es, e.2 = .null) ∧
      es.length ≠ c.entries.length := by
  cases hes : c.entries with
  | nil =>
    refine ⟨.setItem, [.str "x", .null], _, ?_, by simp, applyMethod_setItem ho hes, by simp, by simp⟩
    simpa using ⟨fun count => Proper.leaf (.str "x") rfl, fun count => Proper.leaf .null rfl⟩
  | cons e es => exact ⟨.clear, [], _, by simp, by simp, applyMethod_clear ho, by simp, by simp⟩

end ConfigMap

namespace Session

variable {s s' t : Session} {f g : Value → Value} {v x u : Value} {n k : Nat}

/-- Where the first session shows a value, the second one shows another. Lists, maps and sets that are not frozen,
and open maps, may have become anything. -/
structure Shifts (s s' : Session) (f : Value → Value) : Prop where
  other : ∀ v, v.isLive = false → ¬ v.IsHeld → f v = mapInside f v
  held : ∀ n b es, n < s.maps.length →
    f (.config (some n) b es) = .config (some n) (s'.mapAt n).isSealed (s'.mapAt n).entries
  sealedMap : ∀ n, (s.mapAt n).isSealed = true → (s'.mapAt n).entries = mapValues f (s.mapAt n).entries

theorem map_thaw_ne {xs : List Value} (hx : x ∈ xs) (h : (f x).thaw ≠ x.thaw) :
    (xs.map f).map thaw ≠ xs.map thaw := by
  rw [List.map_map]
  exact fun heq => h (List.map_inj_left.mp heq x hx)

theorem mapValues_thaw_ne {es : Entries} {e : Value × Value} (he : e ∈ es) (h : (f e.2).thaw ≠ e.2.thaw) :
    mapValues thaw (mapValues f es) ≠ mapValues thaw es := by
  rw [mapValues_mapValues]
  exact fun heq => h (congrArg Prod.snd (List.map_inj_left.mp heq e he))

/-- A change of the plain form of a part changes the plain form of the value in which the part shows. -/
theorem Shifts.thaw_ne_of_shows (hf : Shifts s s' f) (hv : s.Stores v) (hx : Shows v x)
    (hne : (f x).thaw ≠ x.thaw) : (f v).thaw ≠ v.thaw := by
  cases hx with
  | frozenList xs x hx =>
    rw [hf.other _ rfl (by simp [IsHeld]), mapInside, thaw_frozenList, thaw_frozenList]
    exact fun heq => map_thaw_ne hx hne (list.inj heq)
  | tuple xs x hx =>
    rw [hf.other _ rfl (by simp [IsHeld]), mapInside, thaw_tuple, thaw_tuple]
    exact fun heq => map_thaw_ne hx hne (list.inj heq)
  | frozenMap es e he =>
    rw [hf.other _ rfl (by simp [IsHeld]), mapInside, thaw_frozenMap, thaw_frozenMap]
    exact fun heq => mapValues_thaw_ne he hne (map.inj heq)
  | view es e he =>
    rw [hf.other _ rfl (by simp [IsHeld]), mapInside, thaw_view, thaw_view]
    exact fun heq => mapValues_thaw_ne he hne (map.inj heq)
  | config n es e he =>
    obtain ⟨hn, hsealed, hentries⟩ := hv.mapAt
    rw [hf.held n true es hn, hf.sealedMap n hsealed, hentries, thaw_config, thaw_config]
    exact fun heq => mapValues_thaw_ne he hne (map.inj heq)

theorem Shifts.thaw_ne (hf : Shifts s s' f) (hs : s.Orderly) (hv : s.Stores v) (h : ReflTransGen Shows v u)
    (hne : (f u).thaw ≠ u.thaw) : (f v).thaw ≠ v.thaw := by
  induction h using ReflTransGen.head_induction_on with
  | refl => exact hne
  | head hx _ ih => exact hf.thaw_ne_of_shows hv hx (ih (hv.of_shows hs hx))

/-- A change of the maps that needs no labels, once it is brought up to date. -/
theorem shifts_refresh (hlength : t.maps.length = s.maps.length) (ha : t.Acyclic)
    (hother : ∀ v, v.isLive = false → ¬ v.IsHeld → g v = mapInside g v)
    (hheld : ∀ n b es, g (.config (some n) b es) = .config (some n) b es)
    (hsealed : ∀ n, (s.mapAt n).isSealed = true → (t.mapAt n).entries = mapValues g (s.mapAt n).entries) :
    Shifts s t.refresh fun v => (g v).refreshed t.refresh.maps := by
  have hmaps := ha.refresh_maps
  have hmap {n : Nat} (hn : n < s.maps.length) : t.refresh.mapAt n = (t.mapAt n).refreshed t.refresh.maps :=
    mapAt_of_maps_eq_map hmaps (hlength ▸ hn)
  have hrefresh : t.refresh.maps.length = s.maps.length := by rw [hmaps, List.length_map, hlength]
  refine ⟨fun v hl hv => ?_, fun n b es hn => ?_, fun n hn => ?_⟩
  · have hg := hother v hl hv
    rw [hg, refreshed_eq_mapInside fun hm => hv (isHeld_mapInside_iff.mp hm), mapInside_mapInside]
  · have hn' : n < t.refresh.maps.length := hrefresh ▸ hn
    rw [hheld, refreshed_config_of_some (List.getElem?_eq_getElem hn'), mapAt_of_lt hn']
  · rw [hmap (lt_of_isSealed hn), ConfigMap.refreshed, refreshedEntries_eq_mapValues, hsealed n hn, mapValues_mapValues]

section replace

variable {l : Nat} {w : Value} (hbare : ∀ next, (w.withLabels next).1.bare = w)
include hbare

theorem replace_maps (s : Session) (l : Nat) :
    (s.replace l w).maps = s.maps.map fun c => { c with entries := mapValues (relabelled l w) c.entries } := by
  simp [replace, relabelledEntries_eq_mapValues, hbare]

theorem mapAt_replace (s : Session) (l n : Nat) :
    ((s.replace l w).mapAt n).entries = mapValues (relabelled l w) (s.mapAt n).entries := by
  rcases Nat.lt_or_ge n s.maps.length with hn | hn
  · rw [mapAt_of_maps_eq_map (replace_maps hbare s l) hn]
  · have hn' : (s.replace l w).maps.length ≤ n := by rwa [replace_maps hbare, List.length_map]
    rw [mapAt_of_ge hn, mapAt_of_ge hn']
    rfl

theorem isMarked_replace (hm : s.IsMarked) : (s.replace l w).IsMarked := by
  intro d hd f hf
  rw [replace_maps hbare] at hd
  obtain ⟨c, hc, rfl⟩ := List.mem_map.mp hd
  obtain ⟨e, he, rfl⟩ := mem_mapValues.mp hf
  exact (hm c hc e he).relabelled l w

theorem acyclic_replace (hw : w.holdsConfig = false) (ha : s.Acyclic) : (s.replace l w).Acyclic := by
  refine acyclic_of_held (fun n k hk => ?_) ha
  obtain ⟨hk, d, hd, h⟩ := hk
  rw [mapAt_replace hbare] at hd
  obtain ⟨e, he, rfl⟩ := mem_mapValues.mp hd
  rw [replace_maps hbare, List.length_map] at hk
  exact ⟨hk, e, he, holdsMap_of_relabelled (fun n hn => not_holdsMap_of_holdsConfig hw hn) h⟩

/-- Other contents under a label show wherever the label does. -/
theorem shifts_replace (hw : w.holdsConfig = false) (ha : s.Acyclic) :
    Shifts s (s.replace l w).refresh fun v => (relabelled l w v).refreshed (s.replace l w).refresh.maps := by
  refine shifts_refresh (by rw [replace_maps hbare, List.length_map]) (acyclic_replace hbare hw ha)
    (fun v hl _ => relabelled_eq_mapInside fun x hx => ?_) (fun _ _ _ => rfl) fun n _ => mapAt_replace hbare s l n
  rw [hx] at hl
  cases hl

end replace

section put

variable {c : ConfigMap} {es : Entries} (hes : ∀ e ∈ es, e.2 = .null)
include hes

theorem isMarked_put (hm : s.IsMarked) : (s.put k { c with entries := es }).IsMarked := by
  intro d hd e he
  rcases List.mem_or_eq_of_mem_set hd with hd | rfl
  · exact hm d hd e he
  · rw [hes e he]
    exact .inside _ rfl (by simp [Value.inside])

theorem acyclic_put (ha : s.Acyclic) : (s.put k { c with entries := es }).Acyclic := by
  refine acyclic_of_held (fun n j hj => ?_) ha
  obtain ⟨hj, e, he, h⟩ := hj
  have hlength : (s.put k { c with entries := es }).maps.length = s.maps.length := List.length_set ..
  rw [hlength] at hj
  by_cases hn : n = k ∧ k < s.maps.length
  · obtain ⟨rfl, hlt⟩ := hn
    rw [mapAt_put hlt] at he
    rw [hes e he] at h
    exact absurd h (not_holdsMap_of_holdsConfig rfl)
  · rw [mapAt_put_of_ne hn] at he
    exact ⟨hj, e, he, h⟩

/-- A map that changes shows in the values that hold it. -/
theorem shifts_put (ho : (s.mapAt k).isSealed = false) (ha : s.Acyclic) :
    Shifts s (s.put k { c with entries := es }).refresh
      fun v => v.refreshed (s.put k { c with entries := es }).refresh.maps := by
  refine shifts_refresh (g := id) (List.length_set ..) (acyclic_put hes ha)
    (fun v _ _ => (mapInside_eq_self fun _ _ => rfl).symm) (fun _ _ _ => rfl) fun n hn => ?_
  have hne : n ≠ k := by
    rintro rfl
    rw [ho] at hn
    cases hn
  rw [mapAt_put_of_ne fun h => hne h.1]
  simp [mapValues]

end put

end Session
end TopologyConfig
