import TopologyConfig.Proofs.Session.Run

/-!
What the moves of a session make of a sealed map. None of them edits it: its keys and its seal stay for good, and
its values are only walked through.
-/
namespace TopologyConfig.Session

open Value ConfigMap Relation

variable {A P : Value → Prop} {m m' : Session} {n : Nat} {c : ConfigMap} {keys : List Value}

/-- What a walk through the maps makes of a value. -/
inductive WalksTo (maps : List ConfigMap) : Value → Value → Prop where
  | same (v : Value) : WalksTo maps v v
  | relabelled (label : Nat) (contents v : Value) : WalksTo maps v (Value.relabelled label contents v)
  | labels (v w : Value) (h : Labels v w) : WalksTo maps v w
  | refreshed (v : Value) : WalksTo maps v (v.refreshed maps)

/-- A move leaves a sealed map as it is, but for walks through its values. -/
theorem Move.walksTo (h : Move A P m m') (hc : m.maps[n]? = some c) (hs : c.isSealed = true) :
    ∃ d, m'.maps[n]? = some d ∧ d.registry = c.registry ∧ d.isSealed = c.isSealed ∧
      c.entries.Pointwise (WalksTo m.maps) d.entries := by
  have hsame : c.entries.Pointwise (WalksTo m.maps) c.entries := Entries.pointwise_self fun e _ => .same e.2
  have hwalk {R : Value → Value → Prop} (hwalked : Walked R m.maps m'.maps)
      (hR : ∀ v w, R v w → WalksTo m.maps v w) :
      ∃ d, m'.maps[n]? = some d ∧ d.registry = c.registry ∧ d.isSealed = c.isSealed ∧
        c.entries.Pointwise (WalksTo m.maps) d.entries := by
    obtain ⟨d, hd, hregistry, hsealed, hes⟩ := hwalked.getElem?_eq_some hc
    exact ⟨d, hd, hregistry, hsealed, hes.imp hR⟩
  cases h with
  | edit k d h =>
    have hk : k ≠ n := by
      rintro rfl
      have hopen := h.isSealed_eq_false
      rw [mapAt_of_getElem? hc, hs] at hopen
      cases hopen
    exact ⟨c, by rw [Session.put, List.getElem?_set_ne hk, hc], rfl, rfl, hsame⟩
  | bind name d r hr h =>
    obtain ⟨hlt, -⟩ := List.getElem?_eq_some_iff.mp hc
    exact ⟨c, by rw [Session.bind, List.getElem?_append_left hlt, hc], rfl, rfl, hsame⟩
  | replace l x h => exact hwalk (walked_replace m l x) fun v w hw => hw ▸ .relabelled l _ v
  | label => exact hwalk (walked_label m) .labels
  | round => exact hwalk (walked_refreshRound m.maps) fun v w hw => hw ▸ .refreshed v

/-- The map is sealed and has the keys. -/
def IsClosedWith (n : Nat) (keys : List Value) (m : Session) : Prop :=
  ∃ c, m.maps[n]? = some c ∧ c.isSealed = true ∧ Entries.keys c.entries = keys

theorem Move.isClosedWith (h : Move A P m m') (hm : IsClosedWith n keys m) : IsClosedWith n keys m' := by
  obtain ⟨c, hc, hs, hkeys⟩ := hm
  obtain ⟨d, hd, -, hsealed, hes⟩ := h.walksTo hc hs
  exact ⟨d, hd, hsealed.trans hs, hes.keys_eq.trans hkeys⟩

theorem Moves.isClosedWith (h : Moves A P m m') (hm : IsClosedWith n keys m) : IsClosedWith n keys m' := by
  induction h with
  | refl => exact hm
  | tail _ hlast ih => exact hlast.isClosedWith ih

end TopologyConfig.Session
