import TopologyConfig.Proofs.Session.Alter

/-!
When a sealed map stays the same. Closing a map freezes its lists, tuples and maps, but stops at views, sets and
configurations. What stands in those can still change, and then the sealed map shows the change: it stays the same
under all later commands exactly if nothing that can change shows in its values.
-/
namespace TopologyConfig.Session

open Value ConfigMap Relation

variable {s s' : Session} {u : Value} {n k : Nat} {path args : List Value} {m : Method}

theorem mutate_part {l : Nat} {w : Value} (h : s.follow path (.map n) = .ok (.part (.labelled l w))) :
    (s.mutate n path m args).session = s.replace l ((Value.labelled l w).apply m args).after := by
  simp [mutate, h]

theorem mutate_map (h : s.follow path (.map n) = .ok (.map k)) (hm : m ≠ .update) :
    (s.mutate n path m args).session = s.put k ((s.mapAt k).applyMethod m args).after := by
  unfold mutate
  split <;> simp_all

/-- Whatever can change in place has a method that changes what the maps show of it. -/
theorem exists_mutation (hs : s.Orderly) (ha : s.Acyclic) (hu : s.Stores u) (hl : u.isLive = true) :
    ∃ m args, (∀ a ∈ args, ∀ count, Proper count a) ∧
      ∀ n path, s.follow path (.map n) = .ok (Target.of u) →
        ∃ f, Shifts s (s.mutate n path m args).session.label.refresh f ∧ (f u).thaw ≠ u.thaw := by
  cases u with
  | list | set | map => cases hu.not_isContainer
  | labelled l w =>
    have hc : w.isContainer = true := by
      cases hu.proper with
      | leaf _ h => exact absurd h Bool.false_ne_true
      | labelled _ _ hc _ => exact hc
    obtain ⟨m, args, w', h⟩ := exists_alters hc
    refine ⟨m, args, h.values, fun n path hpath => ?_⟩
    have hafter : ((Value.labelled l w).apply m args).after = w' := h.after
    rw [mutate_part hpath, hafter, (isMarked_replace h.bare hs.marked).label_eq]
    refine ⟨_, shifts_replace h.bare h.holdsConfig ha, ?_⟩
    rw [relabelled_label, Value.refreshed, refreshed_of_holdsConfig_eq_false h.holdsConfig, thaw_labelled,
      thaw_labelled]
    exact h.thaw
  | config number isSealed es =>
    cases number with
    | none =>
      cases hu.proper with
      | leaf _ h => exact absurd h Bool.false_ne_true
    | some k =>
      obtain ⟨hk, hsealed, hentries⟩ := hu.mapAt
      have ho : (s.mapAt k).isSealed = false := by simpa [hsealed, isLive] using hl
      obtain ⟨m, args, fs, hargs, hm, hafter, hnull, hlength⟩ := exists_applyMethod_ne ho
      refine ⟨m, args, hargs, fun n path hpath => ?_⟩
      rw [mutate_map hpath hm, hafter, (isMarked_put hnull hs.marked).label_eq]
      have hshifts := shifts_put (k := k) (c := s.mapAt k) hnull ho ha
      refine ⟨_, hshifts, ?_⟩
      -- The map has another number of entries than before, and so has the value that shows it.
      have hafterwards : ((s.put k { s.mapAt k with entries := fs }).refresh.mapAt k).entries.length = fs.length := by
        rw [length_entries_refresh, mapAt_put hk]
      rw [hshifts.held k isSealed es hk, thaw_config, thaw_config]
      intro heq
      have hsame := congrArg List.length (Value.map.inj heq)
      simp only [mapValues, List.length_map, hafterwards] at hsame
      exact hlength (hentries ▸ hsame)
  | _ => cases hl

/-- A command on a sealed map changes it if something that can change shows in its values. -/
theorem exists_altering_command {name : String} (hs : s.Orderly) (ha : s.Acyclic) (hname : s.number? name = some n)
    (hsealed : (s.mapAt n).isSealed = true) {e : Value × Value} (he : e ∈ (s.mapAt n).entries)
    (hshort : e.2.HasShortLists) (hlive : ¬ e.2.Fixed) :
    ∃ k s', s.Admits k ∧ s.after k = some s' ∧ (s'.mapAt n).toValue ≠ (s.mapAt n).toValue := by
  have hstores : s.Stores e.2 := hs.stores (mapAt_mem (lt_of_isSealed hsealed)) he
  simp only [Fixed, not_forall] at hlive
  obtain ⟨u, hu, hl⟩ := hlive
  obtain ⟨m, args, hargs, hmutation⟩ :=
    exists_mutation hs ha (hstores.of_reflTransGen hs hu) (by simpa using hl)
  obtain ⟨path, hpath⟩ := exists_path hs hstores hshort hu
  obtain ⟨f, hf, hne⟩ := hmutation n (e.1 :: path) ((follow_cons_of_mem hs.proper he path).trans hpath)
  refine ⟨⟨name, name, .mutate (e.1 :: path) m args⟩, _, ⟨?_, by simp [Step.isForeign]⟩,
    (after_eq_some_iff hname).mpr rfl, ?_⟩
  · exact fun a ha => hargs a ha _
  · have hthaw := hf.thaw_ne hs hstores hu hne
    simp only [toValue, plainEntries, thawEntries_eq_mapValues]
    exact fun heq => mapValues_thaw_ne he hthaw (by rw [← hf.sealedMap n hsealed]; exact Value.map.inj heq)

/-- A sealed map keeps its keys in their order and its seal under all later commands. Its plain form stays the same
under all of them exactly if no list, map, set or open configuration shows in its values, through frozen lists and
maps, tuples, views and sealed configurations; if one does, a single method changes the plain form. -/
theorem sealed_map_stays_same_iff {r : Registry} {name : String} (h : Reached r s) (ha : s.Acyclic)
    (hname : s.number? name = some n) (hsealed : (s.mapAt n).isSealed = true)
    (hshort : ∀ e ∈ (s.mapAt n).entries, e.2.HasShortLists) :
    (∀ ks s', s.afterAll ks = some s' → (s'.mapAt n).isSealed = true ∧
      Entries.keys (s'.mapAt n).entries = Entries.keys (s.mapAt n).entries) ∧
    ((∀ ks s', s.afterAll ks = some s' → (s'.mapAt n).toValue = (s.mapAt n).toValue) ↔
      ∀ e ∈ (s.mapAt n).entries, e.2.Fixed) ∧
    ((∃ e ∈ (s.mapAt n).entries, ¬ e.2.Fixed) →
      ∃ k s', s.Admits k ∧ s.after k = some s' ∧ (s'.mapAt n).toValue ≠ (s.mapAt n).toValue) := by
  have hs := h.orderly ha
  have hlt := lt_of_isSealed hsealed
  have hget : s.maps[n]? = some (s.mapAt n) := by rw [mapAt_of_lt hlt, List.getElem?_eq_getElem hlt]
  have hany : s.Holds (fun _ => True) (fun _ => True) :=
    ⟨hs.proper.registry, fun c hc => ⟨(hs.proper.entries c hc).distinct, by simp, by simp⟩⟩
  have hchange (hlive : ∃ e ∈ (s.mapAt n).entries, ¬ e.2.Fixed) :
      ∃ k s', s.Admits k ∧ s.after k = some s' ∧ (s'.mapAt n).toValue ≠ (s.mapAt n).toValue := by
    obtain ⟨e, he, hlive⟩ := hlive
    exact exists_altering_command hs ha hname hsealed he (hshort e he) hlive
  refine ⟨fun ks s' hs' => ?_, ⟨fun hsame => ?_, fun hfixed ks s' hs' => ?_⟩, hchange⟩
  · obtain ⟨d, hd, hdsealed, hkeys⟩ := (moves_afterAll hany hs').isClosedWith ⟨_, hget, hsealed, rfl⟩
    rw [mapAt_of_getElem? hd]
    exact ⟨hdsealed, hkeys⟩
  -- If something could change, one command would be enough.
  · by_contra hlive
    simp only [not_forall, exists_prop] at hlive
    obtain ⟨k, s', -, hs', hne⟩ := hchange (by simpa using hlive)
    exact hne (hsame [k] s' (by simpa [afterAll] using hs'))
  -- The session itself is the one whose sealed and fixed maps are kept.
  · have hkeeps := (moves_afterAll hany hs').keeps hs.settled hs.proper fun _ _ => rfl
    rw [mapAt_of_getElem? ((hkeeps n ⟨_, hget, hsealed, hfixed⟩).trans hget)]

/-- A list that was closed with its map stays what it is. -/
theorem closed_list_stays_same :
    ∃ s, Reached ⟨[], 1⟩ s ∧ (s.mapAt 0).toValue = .map [(.str "a", .list [.int 1])] ∧
      ∀ ks s', s.afterAll ks = some s' → (s'.mapAt 0).toValue = (s.mapAt 0).toValue := by
  have hset : (start ⟨[], 1⟩).after ⟨"c", "c", .set (.str "a") (.list [.int 1])⟩ =
      some ⟨⟨[], 1⟩, [⟨⟨[], 1⟩, [(.str "a", .labelled 0 (.list [.int 1]))], false⟩], [("c", 0)], 1⟩ := rfl
  have hclose : Session.after ⟨⟨[], 1⟩, [⟨⟨[], 1⟩, [(.str "a", .labelled 0 (.list [.int 1]))], false⟩], [("c", 0)], 1⟩
      ⟨"c", "c", .close true⟩ =
        some ⟨⟨[], 1⟩, [⟨⟨[], 1⟩, [(.str "a", .frozenList [.int 1])], true⟩], [("c", 0)], 1⟩ := rfl
  have hadmits : (start ⟨[], 1⟩).Admits ⟨"c", "c", .set (.str "a") (.list [.int 1])⟩ :=
    ⟨by simpa [Step.values] using Proper.list [.int 1] (by simpa using .leaf (.int 1) rfl), by simp [Step.isForeign]⟩
  have hreached := Reached.step _ _ _ (.step _ _ _ .start hadmits hset)
    ⟨by simp [Step.values], by simp [Step.isForeign]⟩ hclose
  have hdata : IsData (.list [.int 1]) := .list _ (by simpa using .leaf (.int 1) rfl)
  have hshort : (Value.frozenList [.int 1]).HasShortLists := by
    refine hasShortLists_of_shows (by simp [IsShort]) fun x hx => ?_
    cases hx with
    | frozenList _ _ hx =>
      cases List.mem_singleton.mp hx
      exact hasShortLists_of_shows (by simp) fun y hy => by cases hy
  have hname : Session.number? ⟨⟨[], 1⟩, [⟨⟨[], 1⟩, [(.str "a", .frozenList [.int 1])], true⟩], [("c", 0)], 1⟩ "c" =
      some 0 := rfl
  refine ⟨_, hreached, rfl,
    (sealed_map_stays_same_iff hreached (acyclic_of_entriesHoldConfig ?_) hname rfl ?_).2.1.mpr ?_⟩
  · exact List.forall_mem_singleton.mpr rfl
  · exact List.forall_mem_singleton.mpr hshort
  · exact List.forall_mem_singleton.mpr hdata.fixed_freeze

/-- A list in a read-only view is not frozen with the map that holds the view: it can still be appended to, and the
sealed map shows what was appended. -/
theorem list_in_view_changes_sealed_map :
    ∃ s s', (start Registry.standard).afterAll
        [⟨"c", "c", .set (.str "a") (.list [])⟩,
          ⟨"c", "c", .mutate [.str "a"] .append [.view [(.str "x", .list [])]]⟩,
          ⟨"c", "c", .close true⟩] = some s ∧
      (s.mapAt 0).isSealed = true ∧ (s.mapAt 0).toValue = .map [(.str "a", .list [.map [(.str "x", .list [])]])] ∧
      s.after ⟨"c", "c", .mutate [.str "a", .int 0, .str "x"] .append [.int 1]⟩ = some s' ∧
      (s'.mapAt 0).toValue = .map [(.str "a", .list [.map [(.str "x", .list [.int 1])]])] ∧
      (s'.mapAt 0).toValue ≠ (s.mapAt 0).toValue := by
  have hrun : ((start Registry.standard).afterAll
      [⟨"c", "c", .set (.str "a") (.list [])⟩,
        ⟨"c", "c", .mutate [.str "a"] .append [.view [(.str "x", .list [])]]⟩,
        ⟨"c", "c", .close true⟩]).bind (fun s =>
          (s.after ⟨"c", "c", .mutate [.str "a", .int 0, .str "x"] .append [.int 1]⟩).map fun s' =>
            ((s.mapAt 0).isSealed, (s.mapAt 0).toValue, (s'.mapAt 0).toValue)) =
      some (true, .map [(.str "a", .list [.map [(.str "x", .list [])]])],
        .map [(.str "a", .list [.map [(.str "x", .list [.int 1])]])]) := rfl
  obtain ⟨s, hs, h⟩ := Option.bind_eq_some_iff.mp hrun
  obtain ⟨s', hs', h⟩ := Option.map_eq_some_iff.mp h
  obtain ⟨hsealed, h⟩ := Prod.mk.inj h
  obtain ⟨hbefore, hafter⟩ := Prod.mk.inj h
  refine ⟨s, s', hs, hsealed, hbefore, hs', hafter, fun hsame => ?_⟩
  simp [hbefore, hafter] at hsame

end TopologyConfig.Session
