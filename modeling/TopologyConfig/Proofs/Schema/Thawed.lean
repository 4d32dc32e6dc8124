import TopologyConfig.Proofs.Schema.Frozen

/-!
Verdicts on plain values. What a shape accepts, it accepts in plain form too: thawing turns tuples into lists and
mappings into maps, and a shape that accepts a value asks for no more than that.
-/
namespace TopologyConfig

open Value

namespace Value

theorem thaw_of_items? {v : Value} {xs : List Value} (h : v.items? = some xs) : v.thaw = .list (xs.map thaw) := by
  induction v using Value.induction with
  | leaf v hl => cases v <;> simp_all [isLeaf, items?]
  | labelled l v ih => rw [thaw_labelled, ih h]
  | _ => simp_all [items?]

theorem thaw_of_mapEntries? {v : Value} {es : Entries} (h : v.mapEntries? = some es) :
    v.thaw = .map (mapValues thaw es) := by
  induction v using Value.induction with
  | leaf v hl => cases v <;> simp_all [isLeaf, mapEntries?]
  | labelled l v ih => rw [thaw_labelled, ih h]
  | _ => simp_all [mapEntries?]

end Value

namespace Shape

theorem accepts_thaw {s : Shape} {v : Value} (h : s.accepts v = true) : s.accepts v.thaw = true := by
  induction s using Shape.induction generalizing v with
  | scalar s hs => rwa [thaw_of_isLeaf (isLeaf_of_accepts hs h)]
  | map =>
    obtain ⟨es, hes⟩ := Option.isSome_iff_exists.mp h
    rw [thaw_of_mapEntries? hes]
    rfl
  | serializationEntry =>
    rcases isSerializationEntry_iff.mp h with ⟨s, rfl, hs⟩ | ⟨c, s, hes, hc, hs⟩
    · exact h
    -- The only value is a text, which is its own plain form.
    · have hplain : v.thaw = .map [(c, s)] := by
        rw [thaw_of_mapEntries? hes]
        simp [mapValues, thaw_of_isLeaf (isLeaf_of_isIdentifier hs)]
      exact isSerializationEntry_iff.mpr (Or.inr ⟨c, s, by rw [hplain]; rfl, hc, hs⟩)
  | metricsConsumerEntry =>
    rcases metricsConsumerProblem_eq_none_iff.mp h with ⟨s, rfl, hs⟩ | ⟨es, hes, hfaults⟩
    · exact h
    · have hplain : v.thaw.mapEntries? = some (mapValues thaw es) := by
        rw [thaw_of_mapEntries? hes]
        rfl
      refine metricsConsumerProblem_eq_none_iff.mpr (Or.inr ⟨_, hplain, ?_⟩)
      refine MetricsConsumer.entryFaults_eq_nil_of_pointwise (R := fun v w => w = v.thaw) ?_ ?_ hfaults
      · rintro v w hv rfl
        exact thaw_of_isLeaf hv
      · exact Entries.pointwise_mapValues fun _ _ => rfl
  | listOf s ih =>
    rw [accepts] at h
    split at h
    · rename_i xs hxs
      have hall : ∀ x ∈ xs, s.accepts x.thaw = true := fun x hx => ih (List.all_eq_true.mp h x hx)
      rw [thaw_of_items? hxs]
      simpa [accepts, items?] using hall
    · cases h
  | oneOf ss ih =>
    obtain ⟨s, hs, h⟩ := anyAccepts_iff.mp h
    exact anyAccepts_iff.mpr ⟨s, hs, ih s hs h⟩

end Shape

namespace Registry

variable {r : Registry} {key v : Value}

theorem allows_thaw (h : r.allows key v = true) : r.allows key v.thaw = true := by
  refine allows_iff.mpr fun s hs => ?_
  rcases allows_iff.mp h s hs with rfl | h
  · exact Or.inl rfl
  · exact Or.inr (Shape.accepts_thaw h)

end Registry
end TopologyConfig
