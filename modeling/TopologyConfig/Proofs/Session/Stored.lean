import TopologyConfig.Proofs.Session.Proper

/-!
What stands directly under the keys of a map. Every value comes in as plain form or as a list that is replaced as a
whole, and a change in place leaves lists lists; so no map of a reached session has a tuple under a key.
-/
namespace TopologyConfig

open Value ConfigMap Relation

namespace ConfigMap

variable {A P : Value → Prop} {c d : ConfigMap}

/-- Under no key stands a tuple. -/
def HoldsNoTuple (c : ConfigMap) : Prop := ∀ e ∈ c.entries, e.2.isTuple = false

theorem Edit.holdsNoTuple (h : Edit A P c d) (hc : c.HoldsNoTuple) : d.HoldsNoTuple := by
  intro e he
  cases h with
  | put key v _ _ _ ht =>
    rcases Entries.mem_put he with hin | ⟨hv, -⟩
    · exact hc e hin
    · rwa [hv]
  | remove key _ => exact hc e ((Entries.remove_sublist key c.entries).subset he)
  | clear _ => cases he
  | close _ _ =>
    rw [frozen, freezeEntries_eq_mapValues] at he
    obtain ⟨e', -, rfl⟩ := mem_mapValues.mp he
    exact isTuple_freeze e'.2

theorem Edits.holdsNoTuple (h : Edits A P c d) (hc : c.HoldsNoTuple) : d.HoldsNoTuple := by
  induction h with
  | refl => exact hc
  | tail _ hlast ih => exact hlast.holdsNoTuple ih

theorem holdsNoTuple_empty (r : Registry) : (empty r).HoldsNoTuple := fun _ he => by cases he

end ConfigMap

namespace Value

theorem isTuple_relabelled (label : Nat) (contents v : Value) :
    (relabelled label contents v).isTuple = v.isTuple := by
  cases v with
  | labelled l v =>
    rw [relabelled]
    split <;> rfl
  | _ => rfl

theorem isTuple_refreshed (maps : List ConfigMap) (v : Value) : (v.refreshed maps).isTuple = v.isTuple := by
  cases v with
  | config n b es =>
    rw [refreshed]
    split <;> rfl
  | _ => rfl

theorem isTuple_of_labels {v w : Value} (h : Labels v w) : w.isTuple = v.isTuple := by
  obtain ⟨next, rfl⟩ := h
  cases v <;> rfl

/-- A proper value that is no tuple is a list if it has items. -/
theorem listItems?_eq_items? {count : Nat} {v : Value} (h : Proper count v) (ht : v.isTuple = false) :
    v.listItems? = v.items? := by
  cases h with
  | leaf v h => cases v <;> first | rfl | exact absurd h Bool.false_ne_true
  | tuple xs _ => cases ht
  | labelled l v hc _ => cases v <;> first | rfl | exact absurd hc Bool.false_ne_true
  | _ => rfl

end Value

namespace Session

variable {A P : Value → Prop} {s s' : Session}

theorem Walked.holdsNoTuple {R : Value → Value → Prop} (hR : ∀ v w, R v w → w.isTuple = v.isTuple)
    {cs ds : List ConfigMap} (h : Walked R cs ds) (hcs : ∀ c ∈ cs, c.HoldsNoTuple) : ∀ d ∈ ds, d.HoldsNoTuple := by
  intro d hd e he
  obtain ⟨c, hc, -, -, hes⟩ := h.of_mem hd
  obtain ⟨e', he', -, hr⟩ := hes.of_mem he
  rw [hR _ _ hr]
  exact hcs c hc e' he'

theorem Move.holdsNoTuple (h : Move A P s s') (hs : ∀ c ∈ s.maps, c.HoldsNoTuple) :
    ∀ c ∈ s'.maps, c.HoldsNoTuple := by
  cases h with
  | edit n d h =>
    intro c hc
    rcases List.mem_or_eq_of_mem_set hc with hc | rfl
    · exact hs c hc
    · rcases Nat.lt_or_ge n s.maps.length with hn | hn
      · exact h.holdsNoTuple (hs _ (mapAt_mem hn))
      · rw [mapAt_of_ge hn] at h
        exact h.holdsNoTuple (holdsNoTuple_empty _)
  | bind name c r hr h =>
    intro d hd
    rcases List.mem_append.mp hd with hd | hd
    · exact hs d hd
    · cases List.mem_singleton.mp hd
      exact h.holdsNoTuple (holdsNoTuple_empty r)
  | replace l v h =>
    refine (walked_replace s l v).holdsNoTuple ?_ hs
    rintro v w rfl
    exact isTuple_relabelled l _ v
  | label => exact (walked_label s).holdsNoTuple (fun _ _ => isTuple_of_labels) hs
  | round =>
    refine (walked_refreshRound s.maps).holdsNoTuple ?_ hs
    rintro v w rfl
    exact isTuple_refreshed s.maps v

theorem Moves.holdsNoTuple (h : Moves A P s s') (hs : ∀ c ∈ s.maps, c.HoldsNoTuple) :
    ∀ c ∈ s'.maps, c.HoldsNoTuple := by
  induction h with
  | refl => exact hs
  | tail _ hlast ih => exact hlast.holdsNoTuple ih

theorem Reached.moves {r : Registry} (h : Reached r s) : Moves (fun _ => True) (fun _ => True) (Session.start r) s := by
  induction h with
  | start => exact .refl
  | step s s' k hs _ h ih =>
    have hany : s.Holds (fun _ => True) (fun _ => True) :=
      ⟨hs.isProper.registry, fun c hc => ⟨(hs.isProper.entries c hc).distinct, by simp, by simp⟩⟩
    exact ih.trans (moves_after_any hany h)

theorem Reached.registry_eq {r : Registry} (h : Reached r s) : s.registry = r := Moves.registry_eq h.moves

theorem Reached.holdsNoTuple {r : Registry} (h : Reached r s) : ∀ c ∈ s.maps, c.HoldsNoTuple := by
  refine Moves.holdsNoTuple h.moves fun c hc => ?_
  cases List.mem_singleton.mp hc
  exact holdsNoTuple_empty r

theorem Reached.listItems?_eq_items? {r : Registry} (h : Reached r s) {c : ConfigMap} (hc : c ∈ s.maps)
    {e : Value × Value} (he : e ∈ c.entries) : e.2.listItems? = e.2.items? :=
  Value.listItems?_eq_items? ((h.isProper.entries c hc).values e he) (h.holdsNoTuple c hc e he)

end Session
end TopologyConfig
