import TopologyConfig.Proofs.ConfigMap.Copying
import TopologyConfig.Proofs.Session.Run

/-!
The keys of the maps of a session. They stay texts as long as no command appends under something else; such a
command is the only way in for another key, and copies and merges exist exactly while there is none.
-/
namespace TopologyConfig

open Value ConfigMap

theorem Entries.mem_put_of_get?_eq_none {es : Entries} {key : Value} (v : Value) (h : get? es key = none) :
    (key, v) ∈ put key v es := by
  induction es with
  | nil => simp [put]
  | cons e es ih =>
    have hfirst : e.1.same key = false := get?_eq_none_iff.mp h e List.mem_cons_self
    have hrest : get? es key = none := by rwa [get?_cons_of_not_same es hfirst] at h
    simp [put, hfirst, ih hrest]

namespace ConfigMap

variable {c : ConfigMap} {key : Value}

theorem append_of_not_isString (ho : c.isSealed = false) (hh : key.unhashable? = none)
    (hk : key.isString = false) (entry : Value) :
    (c.append key entry).after =
      { c with entries := Entries.put key (.list (c.extended key entry)) c.entries } := by
  have hnone : entryViolation? c.registry key entry = none := by
    cases key <;> first | rfl | simp [isString] at hk
  simp [append, ho, hashable_eq_ok_iff.mpr hh, hnone]

theorem applyMethod_append (c : ConfigMap) (key entry : Value) :
    (c.applyMethod .append [key, entry]).after = (c.append key entry).after := rfl

end ConfigMap

namespace Session

/-- All keys of all maps are texts. -/
def HasTextKeys (s : Session) : Prop := ∀ c ∈ s.maps, c.entries.HasTextKeys

/-- The command appends to an open map under a key that is no text and that the map does not have yet. -/
def AppendsUnderOtherKey (s : Session) (k : Command) : Prop :=
  ∃ n i key c, s.number? k.name = some n ∧ s.appendTarget? n k.step = some (i, key) ∧ s.maps[i]? = some c ∧
    c.isSealed = false ∧ key.unhashable? = none ∧ Entries.get? c.entries key = none ∧ key.isString = false

variable {s s' : Session} {k : Command}

theorem Walked.hasTextKeys_iff {R : Value → Value → Prop} {cs ds : List ConfigMap} (h : Walked R cs ds) :
    (∀ d ∈ ds, d.entries.HasTextKeys) ↔ ∀ c ∈ cs, c.entries.HasTextKeys := by
  have hkeys (es : Entries) : es.HasTextKeys ↔ ∀ k ∈ Entries.keys es, k.isString = true := by
    simp [Entries.HasTextKeys, Entries.keys]
  induction h with
  | nil => simp
  | @cons c d cs ds hcd _ ih =>
    have hfirst : d.entries.HasTextKeys ↔ c.entries.HasTextKeys := by rw [hkeys, hkeys, hcd.2.2.keys_eq]
    rw [List.forall_mem_cons, List.forall_mem_cons]
    exact and_congr hfirst ih

theorem hasTextKeys_refresh_iff (s : Session) : s.refresh.HasTextKeys ↔ s.HasTextKeys := by
  have hrounds (k : Nat) (cs : List ConfigMap) :
      (∀ c ∈ refreshRounds k cs, c.entries.HasTextKeys) ↔ ∀ c ∈ cs, c.entries.HasTextKeys := by
    induction k generalizing cs with
    | zero => rfl
    | succ k ih => exact (ih (refreshRound cs)).trans (walked_refreshRound cs).hasTextKeys_iff
  unfold refresh
  split
  · exact hrounds s.maps.length s.maps
  · rfl

theorem not_hasTextKeys_put {i : Nat} {c : ConfigMap} {key : Value} {v : Value} (hc : s.maps[i]? = some c)
    (hnew : Entries.get? c.entries key = none) (hk : key.isString = false) :
    ¬ (s.put i { c with entries := Entries.put key v c.entries }).HasTextKeys := by
  intro h
  obtain ⟨hlt, -⟩ := List.getElem?_eq_some_iff.mp hc
  have := h _ (List.mem_set hlt _) (key, v) (Entries.mem_put_of_get?_eq_none v hnew)
  simp [hk] at this

theorem perform_of_appendTarget? {n i : Nat} {key : Value} {step : Step} (name : String)
    (h : s.appendTarget? n step = some (i, key)) :
    ∃ entry, (s.perform n name step).session = s.put i ((s.mapAt i).append key entry).after := by
  unfold appendTarget? at h
  split at h
  · rename_i key entry
    cases h
    exact ⟨entry, rfl⟩
  · rename_i path key entry
    split at h
    · rename_i held hf
      cases h
      exact ⟨entry, by simp [perform, mutate, hf, applyMethod_append]⟩
    · cases h
  · cases h

/-- A key that is no text stays in the map under which it was appended. -/
theorem not_hasTextKeys_of_appends (h : s.AppendsUnderOtherKey k) :
    ∃ s', s.after k = some s' ∧ ¬ s'.HasTextKeys := by
  obtain ⟨n, i, key, c, hn, ht, hc, ho, hh, hnew, hk⟩ := h
  have hmap := mapAt_of_getElem? hc
  obtain ⟨entry, hperform⟩ := perform_of_appendTarget? k.bound ht
  have hafter : s.after k = some (s.perform n k.bound k.step).session.label.refresh := by
    simp [after, run, hn]
  refine ⟨_, hafter, ?_⟩
  -- What follows the command leaves all keys alone.
  rw [hasTextKeys_refresh_iff, HasTextKeys, (walked_label _).hasTextKeys_iff, hperform, hmap,
    append_of_not_isString ho hh hk]
  exact not_hasTextKeys_put hc hnew hk

theorem hasTextKeys_of_holds (h : s.Holds (fun k => k.isString = true) fun _ => True) : s.HasTextKeys :=
  fun c hc => (h.entries c hc).keys

/-- Without such commands the keys stay texts. -/
theorem holds_textKeys_of_afterAll {r : Registry} {ks : List Command} (h : (start r).afterAll ks = some s)
    (hno : ∀ pre k post m, ks = pre ++ k :: post → (start r).afterAll pre = some m → ¬ m.AppendsUnderOtherKey k) :
    s.Holds (fun k => k.isString = true) fun _ => True := by
  have H := hereditary_of_keys (A := fun k => k.isString = true) fun _ => rfl
  refine afterAll_induction h (holds_start r) fun pre k post m m' heq hm hQ hm' => ?_
  refine Moves.holds H (moves_after H hQ (by simp) (by simp) (fun n key i c hn ht hc ho hh hnew => ?_) hm') hQ
  by_contra hk
  exact hno pre k post m heq hm ⟨n, i, key, c, hn, ht, hc, ho, hh, hnew, by simpa using hk⟩

/-- In every session of a run all keys are texts exactly if no command of the run appends under another key. All
maps can then be copied and merged, and a map with another key never can. -/
theorem keys_are_texts_iff_no_other_append (r : Registry) (ks : List Command) :
    ((∀ pre s, pre <+: ks → (start r).afterAll pre = some s → s.HasTextKeys) ↔
      ∀ pre k post s, ks = pre ++ k :: post → (start r).afterAll pre = some s → ¬ s.AppendsUnderOtherKey k) ∧
    ∀ pre s, pre <+: ks → (start r).afterAll pre = some s → ∀ m n,
      ((∃ d, (s.mapAt n).copy = .ok d) ↔ (s.mapAt n).entries.HasTextKeys) ∧
      (FailsOnKey (s.mapAt n).deepCopy.result ↔ ¬ (s.mapAt n).entries.HasTextKeys) ∧
      ((∃ d, (merge r (s.valueAt m) (s.valueAt n)).result = .ok d) ↔
        (s.mapAt m).entries.HasTextKeys ∧ (s.mapAt n).entries.HasTextKeys) := by
  refine ⟨⟨fun hkeys pre k post s heq hs happ => ?_, fun hno pre s hp hs => ?_⟩, fun pre s _ _ m n => ⟨?_, ?_, ?_⟩⟩
  · obtain ⟨s', hs', hbad⟩ := not_hasTextKeys_of_appends happ
    refine hbad (hkeys (pre ++ [k]) s' ⟨post, by simp [heq]⟩ ?_)
    rw [afterAll_concat, hs, Option.bind_some, hs']
  · obtain ⟨rest, rfl⟩ := hp
    refine hasTextKeys_of_holds (holds_textKeys_of_afterAll hs fun p k post m heq hm => ?_)
    exact hno p k (post ++ rest) m (by simp [heq]) hm
  · exact copy_eq_ok_iff _
  · exact failsOnKey_deepCopy_iff _
  · exact merge_eq_ok_iff r rfl rfl

/-- An entry appended under a number makes a map that cannot be copied. -/
theorem append_under_number_prevents_copy :
    ∃ s, (start Registry.standard).afterAll [⟨"c", "c", .append (.int 5) (.str "x")⟩] = some s ∧
      ¬ s.HasTextKeys ∧ (s.mapAt 0).copy = .error (.keyNotString "int") := by
  refine ⟨_, rfl, fun h => ?_, rfl⟩
  have := h _ List.mem_cons_self (.int 5, _) List.mem_cons_self
  simp [isString] at this

end Session
end TopologyConfig
