import TopologyConfig.Proofs.Session.Move
import TopologyConfig.Proofs.Session.Inside
import Mathlib.Data.List.Forall2
import Mathlib.Data.List.Perm.Subperm

/-!
Sessions in which no map holds itself. Bringing such a session up to date takes no more rounds than there are maps:
after them every value shows the present contents of the maps inside.
-/
namespace TopologyConfig

open Value ConfigMap Relation

/-- The map with other present contents of the maps inside its values. -/
def ConfigMap.refreshed (maps : List ConfigMap) (c : ConfigMap) : ConfigMap :=
  { c with entries := refreshedEntries maps c.entries }

theorem ConfigMap.refreshed_refreshed {maps maps' : List ConfigMap} (h : maps.length = maps'.length) (c : ConfigMap) :
    (c.refreshed maps).refreshed maps' = c.refreshed maps' := by
  simp only [ConfigMap.refreshed, refreshedEntries_eq_mapValues, mapValues_mapValues]
  rw [mapValues_congr fun e _ => Value.refreshed_refreshed h e.2]

theorem ConfigMap.refreshed_of_entriesHoldConfig {maps : List ConfigMap} {c : ConfigMap}
    (h : entriesHoldConfig c.entries = false) : c.refreshed maps = c := by
  have hvalues : ∀ e ∈ c.entries, e.2.holdsConfig = false := by simpa [entriesHoldConfig_eq_any] using h
  have hentries : mapValues (Value.refreshed maps) c.entries = mapValues id c.entries :=
    mapValues_congr fun e he => refreshed_of_holdsConfig_eq_false (hvalues e he)
  rw [ConfigMap.refreshed, refreshedEntries_eq_mapValues, hentries]
  simp [mapValues]

namespace Session

variable {s s' : Session} {n k : Nat}

/-- A value of the first map holds the second one. -/
def Held (s : Session) (n k : Nat) : Prop := k < s.maps.length ∧ ∃ e ∈ (s.mapAt n).entries, HoldsMap k e.2

/-- No map holds itself, not even through others. -/
def Acyclic (s : Session) : Prop := ∀ n, ¬ TransGen s.Held n n

/-- Every value shows the present contents of the maps inside. -/
def Settled (s : Session) : Prop := refreshRound s.maps = s.maps

theorem Settled.refreshed_eq (hs : s.Settled) {c : ConfigMap} (hc : c ∈ s.maps) {e : Value × Value}
    (he : e ∈ c.entries) : e.2.refreshed s.maps = e.2 := by
  have hmaps : s.maps.map (ConfigMap.refreshed s.maps) = s.maps.map id := by
    rw [List.map_id]
    exact hs
  have hentries := congrArg ConfigMap.entries (List.map_inj_left.mp hmaps c hc)
  rw [ConfigMap.refreshed, refreshedEntries_eq_mapValues] at hentries
  have hsame : mapValues (Value.refreshed s.maps) c.entries = c.entries.map id := by
    rw [List.map_id]
    exact hentries
  exact congrArg Prod.snd (List.map_inj_left.mp hsame e he)

theorem acyclic_of_held (h : ∀ n k, s'.Held n k → s.Held n k) (ha : s.Acyclic) : s'.Acyclic :=
  fun n hn => ha n (TransGen.mono h n n hn)

theorem acyclic_of_entriesHoldConfig (h : ∀ c ∈ s.maps, entriesHoldConfig c.entries = false) : s.Acyclic := by
  have hnone (n k : Nat) : ¬ s.Held n k := by
    rintro ⟨-, e, he, hk⟩
    rcases Nat.lt_or_ge n s.maps.length with hn | hn
    · have hvalues : ∀ e ∈ (s.mapAt n).entries, e.2.holdsConfig = false := by
        simpa [entriesHoldConfig_eq_any] using h _ (mapAt_mem hn)
      exact not_holdsMap_of_holdsConfig (hvalues e he) hk
    · rw [mapAt_of_ge hn] at he
      cases he
  intro n hn
  obtain ⟨k, hk, -⟩ := TransGen.head'_iff.mp hn
  exact hnone n k hk

/-- Chains of maps that hold one another from the map on have at most the given number of maps. -/
def ShallowAt (s : Session) : Nat → Nat → Prop
  | 0, _ => False
  | depth + 1, n => ∀ k, s.Held n k → s.ShallowAt depth k

theorem exists_chain_of_not_shallowAt {depth : Nat} (hn : n < s.maps.length) (h : ¬ s.ShallowAt depth n) :
    ∃ ns, (n :: ns).IsChain s.Held ∧ ns.length = depth ∧ ∀ k ∈ n :: ns, k < s.maps.length := by
  induction depth generalizing n with
  | zero => exact ⟨[], by simp, rfl, by simpa using hn⟩
  | succ depth ih =>
    simp only [ShallowAt, not_forall] at h
    obtain ⟨k, hk, h⟩ := h
    obtain ⟨ns, hchain, hlength, hlt⟩ := ih hk.1 h
    exact ⟨k :: ns, List.isChain_cons_cons.mpr ⟨hk, hchain⟩, by simp [hlength],
      List.forall_mem_cons.mpr ⟨hn, hlt⟩⟩

/-- A chain of more maps than there are would come back to one of them. -/
theorem Acyclic.shallowAt (ha : s.Acyclic) (hn : n < s.maps.length) : s.ShallowAt s.maps.length n := by
  by_contra h
  obtain ⟨ns, hchain, hlength, hlt⟩ := exists_chain_of_not_shallowAt hn h
  have hpairs : (n :: ns).Pairwise (TransGen s.Held) := (hchain.imp fun _ _ => .single).pairwise
  have hnodup : (n :: ns).Nodup := by
    refine hpairs.imp ?_
    rintro j _ hjk rfl
    exact ha j hjk
  have hle := (List.subperm_of_subset hnodup fun k hk => List.mem_range.mpr (hlt k hk)).length_le
  simp only [List.length_cons, List.length_range, hlength] at hle
  omega

theorem refreshRound_eq_map (maps : List ConfigMap) : refreshRound maps = maps.map (ConfigMap.refreshed maps) := rfl

theorem refreshRounds_succ (i : Nat) (maps : List ConfigMap) :
    refreshRounds (i + 1) maps = refreshRound (refreshRounds i maps) := by
  induction i generalizing maps with
  | zero => rfl
  | succ i ih => exact ih (refreshRound maps)

theorem length_refreshRounds (i : Nat) (maps : List ConfigMap) : (refreshRounds i maps).length = maps.length := by
  induction i with
  | zero => rfl
  | succ i ih => rw [refreshRounds_succ, refreshRound, List.length_map, ih]

/-- After some rounds the values are those of the beginning, with the contents of the maps one round before. -/
theorem refreshRounds_eq_map (i : Nat) (maps : List ConfigMap) :
    refreshRounds (i + 1) maps = maps.map (ConfigMap.refreshed (refreshRounds i maps)) := by
  induction i with
  | zero => rfl
  | succ i ih =>
    have hlength : (refreshRounds i maps).length = (refreshRounds (i + 1) maps).length := by
      rw [length_refreshRounds, length_refreshRounds]
    calc
      refreshRounds (i + 1 + 1) maps
          = (refreshRounds (i + 1) maps).map (ConfigMap.refreshed (refreshRounds (i + 1) maps)) :=
        refreshRounds_succ _ maps
      _ = (maps.map (ConfigMap.refreshed (refreshRounds i maps))).map
            (ConfigMap.refreshed (refreshRounds (i + 1) maps)) := by rw [← ih]
      _ = maps.map (ConfigMap.refreshed (refreshRounds (i + 1) maps)) := by
        rw [List.map_map]
        exact List.map_congr_left fun c _ => ConfigMap.refreshed_refreshed hlength c

/-- From the depth of a map on, further rounds leave it alone. -/
theorem getElem?_refreshRounds_succ {depth i : Nat} (h : s.ShallowAt depth n) (hi : depth ≤ i) :
    (refreshRounds (i + 1) s.maps)[n]? = (refreshRounds i s.maps)[n]? := by
  -- On the depth: the maps that the values hold are less deep, so that they have settled one round before.
  induction depth generalizing n i with
  | zero => exact absurd h id
  | succ depth ih =>
    obtain ⟨j, rfl⟩ : ∃ j, i = j + 1 := ⟨i - 1, by omega⟩
    have hsame (c : ConfigMap) (hc : s.maps[n]? = some c) :
        c.refreshed (refreshRounds (j + 1) s.maps) = c.refreshed (refreshRounds j s.maps) := by
      have hmap := mapAt_of_getElem? hc
      simp only [ConfigMap.refreshed, refreshedEntries_eq_mapValues]
      rw [mapValues_congr fun e he => refreshed_congr fun k hk => ?_]
      rcases Nat.lt_or_ge k s.maps.length with hlt | hge
      · exact ih (h k ⟨hlt, e, hmap ▸ he, hk⟩) (by omega)
      · rw [List.getElem?_eq_none (by rwa [length_refreshRounds]),
          List.getElem?_eq_none (by rwa [length_refreshRounds])]
    rw [refreshRounds_eq_map (j + 1), refreshRounds_eq_map j, List.getElem?_map, List.getElem?_map,
      ← refreshRounds_eq_map]
    exact Option.map_congr hsame

theorem Acyclic.refreshRounds_succ_eq (ha : s.Acyclic) :
    refreshRounds (s.maps.length + 1) s.maps = refreshRounds s.maps.length s.maps := by
  refine List.ext_getElem? fun n => ?_
  rcases Nat.lt_or_ge n s.maps.length with hn | hn
  · exact getElem?_refreshRounds_succ (ha.shallowAt hn) (Nat.le_refl _)
  · rw [List.getElem?_eq_none (by rwa [length_refreshRounds]), List.getElem?_eq_none (by rwa [length_refreshRounds])]

theorem map_refreshed_of_any_eq_false (maps : List ConfigMap)
    (h : s.maps.any (fun c => entriesHoldConfig c.entries) = false) :
    s.maps.map (ConfigMap.refreshed maps) = s.maps := by
  have hnone : ∀ c ∈ s.maps, entriesHoldConfig c.entries = false := by simpa using h
  have hsame : s.maps.map (ConfigMap.refreshed maps) = s.maps.map id :=
    List.map_congr_left fun c hc => refreshed_of_entriesHoldConfig (hnone c hc)
  rw [hsame, List.map_id]

/-- Bringing a session up to date changes nothing but the contents of the maps inside the values. -/
theorem exists_refresh_maps (s : Session) : ∃ maps, s.refresh.maps = s.maps.map (ConfigMap.refreshed maps) := by
  unfold refresh
  split
  · cases hlength : s.maps.length with
    | zero =>
      rw [List.length_eq_zero_iff] at hlength
      exact ⟨[], by simp [hlength, refreshRounds]⟩
    | succ i => exact ⟨_, refreshRounds_eq_map i s.maps⟩
  · rename_i h
    exact ⟨[], (map_refreshed_of_any_eq_false [] (by simpa using h)).symm⟩

/-- It gives every value the contents that the maps have afterwards. -/
theorem Acyclic.refresh_maps (ha : s.Acyclic) : s.refresh.maps = s.maps.map (ConfigMap.refreshed s.refresh.maps) := by
  unfold refresh
  split
  · rw [← refreshRounds_eq_map, ha.refreshRounds_succ_eq]
  · rename_i h
    exact (map_refreshed_of_any_eq_false _ (by simpa using h)).symm

theorem settled_of_maps_eq_map {maps : List ConfigMap} (h : s.maps = maps.map (ConfigMap.refreshed s.maps)) :
    s.Settled := by
  calc
    refreshRound s.maps = (maps.map (ConfigMap.refreshed s.maps)).map (ConfigMap.refreshed s.maps) := by
      rw [← h, refreshRound_eq_map]
    _ = maps.map (ConfigMap.refreshed s.maps) := by
      rw [List.map_map]
      exact List.map_congr_left fun c _ => ConfigMap.refreshed_refreshed rfl c
    _ = s.maps := h.symm

theorem mapAt_of_maps_eq_map {f : ConfigMap → ConfigMap} (h : s'.maps = s.maps.map f) (hn : n < s.maps.length) :
    s'.mapAt n = f (s.mapAt n) := by
  have hn' : n < s'.maps.length := by rwa [h, List.length_map]
  rw [mapAt_of_lt hn', mapAt_of_lt hn]
  simp [h]

theorem length_entries_refresh (s : Session) (n : Nat) :
    (s.refresh.mapAt n).entries.length = (s.mapAt n).entries.length := by
  obtain ⟨maps, hmaps⟩ := s.exists_refresh_maps
  rcases Nat.lt_or_ge n s.maps.length with hn | hn
  · rw [mapAt_of_maps_eq_map hmaps hn, ConfigMap.refreshed, refreshedEntries_eq_mapValues, mapValues, List.length_map]
  · have hn' : s.refresh.maps.length ≤ n := by rwa [hmaps, List.length_map]
    rw [mapAt_of_ge hn, mapAt_of_ge hn']
    rfl

theorem held_refresh : s.refresh.Held n k ↔ s.Held n k := by
  obtain ⟨maps, hmaps⟩ := s.exists_refresh_maps
  have hlength : s.refresh.maps.length = s.maps.length := by rw [hmaps, List.length_map]
  unfold Held
  rw [hlength]
  refine and_congr_right fun _ => ?_
  rcases Nat.lt_or_ge n s.maps.length with hn | hn
  · rw [mapAt_of_maps_eq_map hmaps hn, ConfigMap.refreshed, refreshedEntries_eq_mapValues]
    refine ⟨fun ⟨d, hd, h⟩ => ?_, fun ⟨e, he, h⟩ => ⟨_, mem_mapValues.mpr ⟨e, he, rfl⟩, holdsMap_refreshed.mpr h⟩⟩
    obtain ⟨e, he, rfl⟩ := mem_mapValues.mp hd
    exact ⟨e, he, holdsMap_refreshed.mp h⟩
  · rw [mapAt_of_ge hn, mapAt_of_ge (hlength ▸ hn)]
    rfl

theorem acyclic_refresh_iff : s.refresh.Acyclic ↔ s.Acyclic :=
  ⟨acyclic_of_held fun _ _ => held_refresh.mpr, acyclic_of_held fun _ _ => held_refresh.mp⟩

end Session
end TopologyConfig
