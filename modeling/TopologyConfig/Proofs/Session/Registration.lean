import TopologyConfig.Proofs.ConfigMap.Registration
import TopologyConfig.Proofs.Schema.Thawed
import TopologyConfig.Proofs.Session.Copies
import TopologyConfig.Proofs.Session.Stored

/-!
Registrations in the maps of a session. A map without violations keeps none through typed calls, so it can be sealed
after them; and entries that are appended one by one give what a layer with them gives.
-/
namespace TopologyConfig

open Value ConfigMap

namespace Value

theorem IsKey.bare_eq {key : Value} (h : IsKey key) : key.bare = key := by
  cases h with
  | leaf _ h => cases key <;> first | rfl | exact absurd h Bool.false_ne_true
  | tuple xs _ => rfl

/-- In plain form, only lists have items. -/
theorem listItems?_thaw (v : Value) : v.thaw.listItems? = v.thaw.items? := by
  induction v using induction with
  | leaf v h => cases v <;> first | rfl | exact absurd h Bool.false_ne_true
  | labelled l v ih => rwa [thaw_labelled]
  | _ => simp [listItems?, items?]

end Value

namespace Registry

variable {r r' : Registry}

theorem key?_congr (h : r.keys = r'.keys) (key : Value) : r.key? key = r'.key? key := by
  cases key with
  | str name => rw [key?, key?, find?, find?, h]
  | _ => rfl

theorem shape?_congr (h : r.keys = r'.keys) (key : Value) : r.shape? key = r'.shape? key := by
  rw [shape?, shape?, key?_congr h]

theorem element?_congr (h : r.keys = r'.keys) (key : Value) : r.element? key = r'.element? key := by
  rw [element?, element?, key?_congr h]

theorem element?_of_shape? {key : Value} {s : Shape} (h : r.shape? key = some s) : r.element? key = s.element? := by
  rw [shape?] at h
  obtain ⟨k, hk, hs⟩ := Option.bind_eq_some_iff.mp h
  rw [element?, hk, Option.bind_some, ConfigKey.element?, hs, Option.bind_some]

end Registry

namespace ConfigMap

variable {c d : ConfigMap} {x : Registration}

/-- An open map without violations, as programs reach them. -/
structure IsSound (c : ConfigMap) : Prop where
  isOpen : c.isSealed = false
  registry : c.registry.keys = Registry.standard.keys
  keys : ∀ e ∈ c.entries, e.1.bare = e.1
  lists : ∀ e ∈ c.entries, e.2.listItems? = e.2.items?
  valid : ∀ e ∈ c.entries, c.registry.allows e.1 e.2 = true

theorem IsSound.put (h : c.IsSound) {name : String} {v : Value} (hl : v.listItems? = v.items?)
    (hv : c.registry.allows (.str name) v = true) :
    IsSound { c with entries := Entries.put (.str name) v c.entries } := by
  have hkeys : ∀ e ∈ Entries.put (.str name) v c.entries, e.1.bare = e.1 := by
    intro e he
    rcases Entries.mem_put he with he | ⟨-, ⟨hkey, -⟩ | hkey⟩
    · exact h.keys e he
    · rw [hkey]
      rfl
    · obtain ⟨e', he', heq⟩ := List.mem_map.mp hkey
      exact heq ▸ h.keys e' he'
  refine ⟨h.isOpen, h.registry, hkeys, fun e he => ?_, fun e he => ?_⟩
  · rcases Entries.mem_put_str he with hold | ⟨hvalue, -⟩
    · exact h.lists e hold
    · rwa [hvalue]
  · rcases Entries.mem_put_str he with hold | ⟨hvalue, hsame⟩
    · exact h.valid e hold
    · have hkey : e.1 = .str name := (hkeys e he).symm.trans (same_str_iff.mp hsame)
      rw [hvalue, hkey]
      exact hv

/-- What a map holds under a name is allowed there. -/
theorem IsSound.allows_get? (h : c.IsSound) {name : String} {v : Value}
    (hv : Entries.get? c.entries (.str name) = some v) :
    c.registry.allows (.str name) v = true ∧ v.listItems? = v.items? := by
  obtain ⟨e, he, hsame, rfl⟩ := Entries.mem_of_get? hv
  have hkey : e.1 = .str name := (h.keys e he).symm.trans (same_str_iff.mp hsame)
  exact ⟨hkey ▸ h.valid e he, h.lists e he⟩

/-- The entries under a key of lists have the shape of its elements. -/
theorem IsSound.accepts_entries (h : c.IsSound) {name : String} {element : Shape}
    (hs : c.registry.shape? (.str name) = some (.listOf element)) :
    ∀ x ∈ asEntries ((Entries.get? c.entries (.str name)).getD .null), element.accepts x = true := by
  cases hg : Entries.get? c.entries (.str name) with
  | none => simp [asEntries]
  | some v =>
    obtain ⟨hallows, hlist⟩ := h.allows_get? hg
    rcases Registry.allows_iff.mp hallows _ hs with rfl | haccepts
    · simp [asEntries]
    · rw [Shape.accepts] at haccepts
      split at haccepts
      · rename_i xs hxs
        have hentries : asEntries v = xs := by
          rw [hxs] at hlist
          cases v <;> simp_all [asEntries, listItems?]
        simpa [hentries] using haccepts
      · cases haccepts

theorem IsSound.registers (h : c.IsSound) (hx : Registers c x d) : d.IsSound := by
  cases hx with
  | refused e _ => exact h
  | added a entry _ _ _ haccepts =>
    obtain ⟨element, hshape⟩ := Registry.exists_shape?_accumulator a
    rw [← Registry.shape?_congr h.registry] at hshape
    -- The entry was checked as it was given, and the list holds it in plain form.
    have hentry : element.accepts entry.thaw = true :=
      Shape.accepts_thaw (haccepts element (Registry.element?_of_shape? hshape))
    have hall : ∀ x ∈ asEntries ((Entries.get? c.entries (.str a.key)).getD .null) ++ [entry.thaw],
        element.accepts x = true := by
      intro x hx
      rcases List.mem_append.mp hx with hx | hx
      · exact h.accepts_entries hshape x hx
      · rwa [List.mem_singleton.mp hx]
    refine h.put rfl (Registry.allows_iff.mpr fun s hs => Or.inr ?_)
    obtain rfl : Shape.listOf element = s := by simpa [hshape] using hs
    rw [Shape.accepts, items?]
    exact List.all_eq_true.mpr hall
  | assigned s v _ _ _ ha =>
    have hplain : v.thaw = v := by
      refine Registry.thaw_of_allows_setter (s := s) (Registry.allows_iff.mpr fun shape hs => ?_)
      rw [← Registry.shape?_congr h.registry] at hs
      exact Registry.allows_iff.mp ha shape hs
    exact h.put (listItems?_thaw v) (Registry.allows_thaw ha)

theorem IsSound.registerAll (h : c.IsSound) (xs : List Registration) : (c.registerAll xs).IsSound := by
  induction xs generalizing c with
  | nil => exact h
  | cons x xs ih => exact ih (h.registers (registers_register h.isOpen x))

theorem validate_eq_nil_iff : c.validate = .ok [] ↔ ∀ e ∈ c.entries, c.registry.allows e.1 e.2 = true := by
  rw [← Registry.inspect_eq_nil_iff, validate, mapError_eq_ok, Registry.validateAll]
  cases hi : c.registry.inspect c.entries with
  | mk found stopped => cases stopped <;> simp

end ConfigMap

namespace Session

variable {s : Session}

theorem Reached.isSound (h : Reached Registry.standard s) {c : ConfigMap} (hc : c ∈ s.maps) (ho : c.isSealed = false)
    (hv : c.validate = .ok []) : c.IsSound where
  isOpen := ho
  registry := by rw [h.isProper.registry c hc, h.registry_eq]
  keys := fun e he => ((h.isProper.entries c hc).keys e he).bare_eq
  lists := fun e he => h.listItems?_eq_items? hc he
  valid := validate_eq_nil_iff.mp hv

/-- An open map without violations has none after any calls of accumulators and setters, whatever their arguments and
whether or not they succeed; so it can be sealed in both modes. -/
theorem registered_map_can_be_sealed (s : Session) (h : Reached Registry.standard s) :
    ∀ c ∈ s.maps, c.isSealed = false → c.validate = .ok [] → ∀ xs : List Registration,
      (c.registerAll xs).validate = .ok [] ∧
      ∀ collect, ∃ d, ((c.registerAll xs).toSealed collect).result = .ok d ∧ d.isSealed = true := by
  intro c hc ho hv xs
  have hsound := (h.isSound hc ho hv).registerAll xs
  have hvalid := validate_eq_nil_iff.mpr hsound.valid
  exact ⟨hvalid, fun collect => ⟨_, toSealed_of_inspect hsound.isOpen (Registry.inspect_eq_nil_iff.mpr hsound.valid)
    collect, rfl⟩⟩

/-- Two calls register something, and one between them is refused; the map can be sealed all the same. -/
theorem named_map_can_be_sealed :
    ∃ s, Reached Registry.standard s ∧ (s.mapAt 0).isSealed = false ∧ (s.mapAt 0).validate = .ok [] ∧
      ∀ collect, ∃ d, (((s.mapAt 0).registerAll [⟨.inl .serialization, [.str "a.B"], []⟩,
        ⟨.inl .serialization, [.int 5], []⟩, ⟨.inl .metricsConsumer, [.str "x", .int 2, .tuple [.null]], []⟩]).toSealed
          collect).result = .ok d ∧ d.isSealed = true := by
  have hset : (start Registry.standard).after ⟨"c", "c", .set (.str "topology.name") (.str "wordcount")⟩ =
      some ⟨Registry.standard, [⟨Registry.standard, [(.str "topology.name", .str "wordcount")], false⟩], [("c", 0)], 0⟩ :=
    rfl
  have hadmits : (start Registry.standard).Admits ⟨"c", "c", .set (.str "topology.name") (.str "wordcount")⟩ :=
    ⟨by simpa [Step.values] using Proper.leaf (.str "wordcount") rfl, by simp [Step.isForeign]⟩
  have hvalid : ConfigMap.validate ⟨Registry.standard, [(.str "topology.name", .str "wordcount")], false⟩ = .ok [] := by
    rfl
  have hreached := Reached.step _ _ _ .start hadmits hset
  refine ⟨_, hreached, rfl, hvalid, fun collect => ?_⟩
  exact (registered_map_can_be_sealed _ hreached _ List.mem_cons_self rfl hvalid _).2 collect

/-- Entries that their key accepts, appended one by one, give what a layer with them gives: the same plain form, with
its keys in the same order. -/
theorem appended_entries_agree_with_layer (r : Registry) (s : Session) (h : Reached r s) :
    ∀ n < s.maps.length, (s.mapAt n).isSealed = false → (s.mapAt n).entries.HasTextKeys →
      ∀ name : String, r.isAccumulator (.str name) = true → ∀ xs : List Value, xs ≠ [] →
      (∀ shape, r.element? (.str name) = some shape → ∀ x ∈ xs, shape.accepts x = true) →
      ∃ d e, (s.mapAt n).appendAll (.str name) xs = .ok d ∧
        (merge r (s.valueAt n) (.map [(.str name, .list xs)])).result = .ok e ∧
        d.toValue = e.toValue ∧ Entries.keys d.entries = Entries.keys e.entries := by
  intro n hn ho hkeys name ha xs hne hxs
  have hc : s.mapAt n ∈ s.maps := mapAt_mem hn
  have hentries := h.isProper.entries _ hc
  have hregistry : (s.mapAt n).registry.keys = r.keys := by rw [h.isProper.registry _ hc, h.registry_eq]
  have hheld (v : Value) (hv : Entries.get? (s.mapAt n).entries (.str name) = some v) :
      contribution v = (asEntries v).map thaw := by
    obtain ⟨e, he, -, rfl⟩ := Entries.mem_of_get? hv
    exact contribution_eq_map_thaw_asEntries (hentries.values e he) (h.holdsNoTuple _ hc e he)
  have happended : (s.mapAt n).appendAll (.str name) xs = .ok ((s.mapAt n).extendedBy name xs) :=
    appendAll_of_accepts ho hne fun shape hshape => hxs shape (Registry.element?_congr hregistry _ ▸ hshape)
  obtain ⟨e, he, -, hplain⟩ := merge_list r (some n) hkeys hentries.distinct ha xs
  have hsame : ((s.mapAt n).extendedBy name xs).plainEntries = e.plainEntries := by
    rw [hplain, plainEntries_extendedBy hheld]
  refine ⟨_, e, happended, he, by rw [toValue, toValue, hsame], ?_⟩
  have hkeysPlain (d : ConfigMap) : Entries.keys d.plainEntries = Entries.keys d.entries := by
    rw [plainEntries, thawEntries_eq_mapValues, Entries.keys_mapValues]
  rw [← hkeysPlain, hsame, hkeysPlain]

/-- Entries after a bare value, one of them given as a frozen map. -/
theorem bare_value_is_first_entry :
    ∃ s d e, Reached Registry.standard s ∧
      (s.mapAt 0).entries = [(.str "topology.kryo.register", .str "a.B")] ∧
      (s.mapAt 0).appendAll (.str "topology.kryo.register") [.frozenMap [(.str "a.C", .str "a.D")], .str "a.B"] =
        .ok d ∧
      (merge Registry.standard (s.valueAt 0) (.map [(.str "topology.kryo.register",
        .list [.frozenMap [(.str "a.C", .str "a.D")], .str "a.B"])])).result = .ok e ∧
      d.toValue = e.toValue ∧ Entries.keys d.entries = Entries.keys e.entries := by
  have hset : (start Registry.standard).after ⟨"c", "c", .set (.str "topology.kryo.register") (.str "a.B")⟩ =
      some ⟨Registry.standard, [⟨Registry.standard, [(.str "topology.kryo.register", .str "a.B")], false⟩], [("c", 0)], 0⟩ :=
    rfl
  have hadmits : (start Registry.standard).Admits ⟨"c", "c", .set (.str "topology.kryo.register") (.str "a.B")⟩ :=
    ⟨by simpa [Step.values] using Proper.leaf (.str "a.B") rfl, by simp [Step.isForeign]⟩
  have hreached := Reached.step _ _ _ .start hadmits hset
  have htexts : Entries.HasTextKeys [(.str "topology.kryo.register", .str "a.B")] := List.forall_mem_singleton.mpr rfl
  have haccepts : ∀ shape, Registry.standard.element? (.str "topology.kryo.register") = some shape →
      ∀ x ∈ [Value.frozenMap [(.str "a.C", .str "a.D")], .str "a.B"], shape.accepts x = true := by
    intro shape hshape
    obtain rfl : Shape.serializationEntry = shape := Option.some.inj (Eq.trans rfl hshape)
    simp only [List.forall_mem_cons]
    exact ⟨rfl, rfl, fun _ h => by cases h⟩
  obtain ⟨d, e, hd, he, hsame⟩ := appended_entries_agree_with_layer _ _ hreached 0 Nat.one_pos rfl htexts
    "topology.kryo.register" rfl _ (List.cons_ne_nil _ _) haccepts
  exact ⟨_, d, e, hreached, rfl, hd, he, hsame⟩

/-- An entry for a consumer of metrics with an argument. -/
def consumerEntry (argument : Value) : Value :=
  .map [(.str "class", .str "x"), (.str "parallelism.hint", .int 1), (.str "argument", argument)]

/-- An entry that holds the map itself is copied with what the map has by then: the one that is appended has the
earlier entry in it, the one of a layer has not. -/
theorem entry_with_its_own_map_differs :
    Registry.standard.isAccumulator (.str "topology.metrics.consumer.register") = true ∧
    Registry.standard.element? (.str "topology.metrics.consumer.register") = some .metricsConsumerEntry ∧
    Shape.metricsConsumerEntry.accepts (.str "a") = true ∧
    Shape.metricsConsumerEntry.accepts (consumerEntry ((start Registry.standard).valueAt 0)) = true ∧
    ∃ s₁ s₂ s₃, (start Registry.standard).after
        ⟨"c", "c", .append (.str "topology.metrics.consumer.register") (.str "a")⟩ = some s₁ ∧
      s₁.after ⟨"c", "c", .append (.str "topology.metrics.consumer.register") (consumerEntry (s₁.valueAt 0))⟩ =
        some s₂ ∧
      (start Registry.standard).after ⟨"c", "d", .merge ((start Registry.standard).valueAt 0)
        (.map [(.str "topology.metrics.consumer.register",
          .list [.str "a", consumerEntry ((start Registry.standard).valueAt 0)])])⟩ = some s₃ ∧
      (s₂.mapAt 0).toValue ≠ (s₃.mapAt 1).toValue := by
  have haccepts : Shape.metricsConsumerEntry.accepts (consumerEntry ((start Registry.standard).valueAt 0)) = true :=
    rfl
  have hrun : ((start Registry.standard).after
      ⟨"c", "c", .append (.str "topology.metrics.consumer.register") (.str "a")⟩).bind (fun s₁ =>
        (s₁.after ⟨"c", "c", .append (.str "topology.metrics.consumer.register") (consumerEntry (s₁.valueAt 0))⟩).bind
          fun s₂ => ((start Registry.standard).after ⟨"c", "d", .merge ((start Registry.standard).valueAt 0)
            (.map [(.str "topology.metrics.consumer.register",
              .list [.str "a", consumerEntry ((start Registry.standard).valueAt 0)])])⟩).map
                fun s₃ => ((s₂.mapAt 0).toValue, (s₃.mapAt 1).toValue)) =
      some (.map [(.str "topology.metrics.consumer.register", .list [.str "a",
          consumerEntry (.map [(.str "topology.metrics.consumer.register", .list [.str "a"])])])],
        .map [(.str "topology.metrics.consumer.register", .list [.str "a", consumerEntry (.map [])])]) := rfl
  obtain ⟨s₁, h₁, hrun⟩ := Option.bind_eq_some_iff.mp hrun
  obtain ⟨s₂, h₂, hrun⟩ := Option.bind_eq_some_iff.mp hrun
  obtain ⟨s₃, h₃, hrun⟩ := Option.map_eq_some_iff.mp hrun
  obtain ⟨happended, hmerged⟩ := Prod.mk.inj hrun
  refine ⟨rfl, rfl, rfl, haccepts, s₁, s₂, s₃, h₁, h₂, h₃, fun hsame => ?_⟩
  simp [happended, hmerged, consumerEntry] at hsame

end Session
end TopologyConfig
