import TopologyConfig.Proofs.ConfigMap.Layers
import TopologyConfig.Proofs.Session.Copies

/-!
Merging and validity. A key whose values are allowed in every layer has an allowed value in what the layers make: the
last value in plain form, or a list of entries each of which some layer has in plain form.
-/
namespace TopologyConfig

open Value

/-- The layer has the value under the name. -/
def Value.Gives (layer : Value) (name : String) (v : Value) : Prop :=
  ∃ es, layer.mapping? = some es ∧ (.str name, v) ∈ es

/-- The violations that an error is about. -/
def ConfigError.reported : ConfigError → List Violation
  | .violation v => [v]
  | .invalid vs => vs
  | _ => []

namespace Value

theorem mem_namedEntries_iff {layer v : Value} {name : String} :
    (name, v) ∈ ConfigMap.namedEntries layer ↔ layer.Gives name v := by
  unfold ConfigMap.namedEntries Gives
  rw [List.mem_filterMap]
  constructor
  · rintro ⟨⟨k, w⟩, he, hname⟩
    split at hname
    · next hk =>
      cases hname
      obtain rfl : k = .str name := hk
      cases hm : layer.mapping? with
      | none => simp [hm] at he
      | some es => exact ⟨es, rfl, by simpa [hm] using he⟩
    · cases hname
  · rintro ⟨es, hm, he⟩
    exact ⟨_, by simpa [hm] using he, rfl⟩

theorem contribution_of_items? {v : Value} {xs : List Value} (h : v.items? = some xs) :
    ConfigMap.contribution v = xs.map thaw := by
  induction v using Value.induction with
  | leaf v hl => cases v <;> simp_all [isLeaf, items?]
  | labelled l v ih => exact ih h
  | list ys _ | frozenList ys _ | tuple ys _ =>
    cases h
    rfl
  | _ => cases h

end Value

namespace Registry

variable {r : Registry} {es : Entries}

theorem element?_isSome_of_fault? {seen : List String} {keys : List ConfigKey} (h : fault? seen keys = none) :
    ∀ k ∈ keys, k.accumulates = true → k.element?.isSome = true := by
  induction keys generalizing seen with
  | nil => simp
  | cons k ks ih =>
    rw [fault?] at h
    split at h
    · cases h
    · split at h
      · cases h
      · next hk =>
        refine List.forall_mem_cons.mpr ⟨fun ha => ?_, ih h⟩
        cases he : k.element? with
        | none => simp [ha, he] at hk
        | some _ => rfl

theorem mem_keys_of_key? {key : Value} {k : ConfigKey} (h : r.key? key = some k) : k ∈ r.keys := by
  cases key with
  | str name => exact List.mem_of_find?_eq_some h
  | _ => cases h

/-- Every accumulator key has a shape of lists. -/
def AccumulatesLists (r : Registry) : Prop := ∀ k ∈ r.keys, k.accumulates = true → k.element?.isSome = true

theorem accumulatesLists_of_ofKeys {number : Nat} {keys : List ConfigKey} (h : ofKeys number keys = .ok r) :
    r.AccumulatesLists := by
  unfold ofKeys at h
  split at h
  · cases h
  · next hfault =>
    cases h
    exact element?_isSome_of_fault? hfault

/-- The values under an accumulator key are lists. -/
theorem AccumulatesLists.shape? (h : r.AccumulatesLists) {key : Value} (ha : r.isAccumulator key = true) :
    ∃ element, r.shape? key = some (.listOf element) := by
  rw [isAccumulator] at ha
  cases hk : r.key? key with
  | none => simp [hk] at ha
  | some k =>
    have hacc : k.accumulates = true := by simpa [hk] using ha
    have helement := h k (mem_keys_of_key? hk) hacc
    rw [ConfigKey.element?] at helement
    rw [Registry.shape?, hk, Option.bind_some]
    cases hs : k.shape with
    | none => simp [hs] at helement
    | some s =>
      cases s with
      | listOf element => exact ⟨element, rfl⟩
      | _ => simp [hs, Shape.element?] at helement

/-- Every violation that is found is one of an entry. -/
theorem validate_of_mem_found {x : Violation} (hx : x ∈ (r.inspect es).found) :
    ∃ e ∈ es, r.validate e.1 e.2 = .ok (some x) := by
  induction es with
  | nil => cases hx
  | cons e es ih =>
    obtain ⟨k, v⟩ := e
    rw [inspect] at hx
    split at hx
    · cases hx
    · obtain ⟨e, he, hv⟩ := ih hx
      exact ⟨e, List.mem_cons_of_mem _ he, hv⟩
    · next y hy =>
      rcases List.mem_cons.mp hx with rfl | hx
      · exact ⟨_, List.mem_cons_self, hy⟩
      · obtain ⟨e, he, hv⟩ := ih hx
        exact ⟨e, List.mem_cons_of_mem _ he, hv⟩

theorem key_of_validate {key v : Value} {x : Violation} (h : r.validate key v = .ok (some x)) : x.key = key := by
  unfold validate at h
  split at h
  · cases h
  · next y hy =>
    obtain ⟨z, hz, hzx⟩ := map_eq_ok.mp h
    cases hzx
    have hyx : y = x := by
      unfold Violation.checked at hz
      split at hz
      · exact Except.ok.inj hz
      · cases hz
    unfold violation? at hy
    split at hy
    · cases hy
    · obtain ⟨s, -, hs⟩ := Option.map_eq_some_iff.mp hy
      rw [← hyx, ← hs]

end Registry

namespace ConfigMap

variable {r : Registry} {name : String} {layers : List Value}

/-- A list under an accumulator key is allowed if what it is made of was. -/
theorem allows_layeredValue (h : r.AccumulatesLists) {vs : List Value} (hvs : ∀ v ∈ vs, r.allows (.str name) v = true) :
    r.allows (.str name) (layeredValue (r.isAccumulator (.str name)) vs) = true := by
  have hnull : r.allows (.str name) .null = true := Registry.allows_iff.mpr fun _ _ => Or.inl rfl
  cases ha : r.isAccumulator (.str name) with
  | false =>
    cases hlast : vs.getLast? with
    | none => simpa [layeredValue, hlast] using hnull
    | some v => simpa [layeredValue, hlast] using Registry.allows_thaw (hvs v (List.mem_of_getLast? hlast))
  | true =>
    obtain ⟨element, hshape⟩ := h.shape? ha
    have hentries : ∀ x ∈ vs.flatMap contribution, element.accepts x = true := by
      intro x hx
      obtain ⟨v, hv, hx⟩ := List.mem_flatMap.mp hx
      rcases Registry.allows_iff.mp (hvs v hv) _ hshape with rfl | haccepts
      · cases hx
      · rw [Shape.accepts] at haccepts
        split at haccepts
        · next xs hxs =>
          rw [contribution_of_items? hxs] at hx
          obtain ⟨y, hy, rfl⟩ := List.mem_map.mp hx
          exact Shape.accepts_thaw (List.all_eq_true.mp haccepts y hy)
        · cases haccepts
    rw [layeredValue, if_pos rfl]
    split
    · exact hnull
    · refine Registry.allows_iff.mpr fun s hs => Or.inr ?_
      obtain rfl : Shape.listOf element = s := by simpa [hshape] using hs
      rw [Shape.accepts, items?]
      exact List.all_eq_true.mpr hentries

/-- An allowed value in every layer makes an allowed value in the result. -/
theorem allows_of_layered (h : r.AccumulatesLists)
    (hvalid : ∀ layer ∈ layers, ∀ v, layer.Gives name v → r.allows (.str name) v = true) {v : Value}
    (hv : (.str name, v) ∈ (layered r layers).entries) : r.allows (.str name) v = true := by
  obtain ⟨other, -, heq⟩ := List.mem_map.mp hv
  obtain ⟨hname, rfl⟩ := Prod.mk.inj heq
  obtain rfl : other = name := Value.str.inj hname
  refine allows_layeredValue h fun w hw => ?_
  obtain ⟨⟨n, w⟩, hunder, rfl⟩ := List.mem_map.mp hw
  obtain ⟨hp, hn⟩ := List.mem_filter.mp hunder
  obtain rfl : n = other := by simpa using hn
  obtain ⟨layer, hlayer, hgives⟩ := List.mem_flatMap.mp hp
  exact hvalid layer hlayer w (mem_namedEntries_iff.mp hgives)

theorem exists_str_of_mem_layered {e : Value × Value} (he : e ∈ (layered r layers).entries) :
    ∃ n, e.1 = .str n := by
  obtain ⟨n, -, rfl⟩ := List.mem_map.mp he
  exact ⟨n, rfl⟩

/-- What a refusal to seal reports was found in the entries. -/
theorem reported_of_toSealed {c : ConfigMap} {collect : Bool} {e : ConfigError}
    (h : (c.toSealed collect).result = .error e) :
    ∀ x ∈ e.reported, x ∈ (c.registry.inspect c.entries).found := by
  unfold toSealed at h
  split at h
  · cases h
  · dsimp only at h
    split at h
    · cases h
    · cases h
      exact fun x hx => nomatch hx
    · next hfound =>
      rw [hfound]
      split at h
      · split at h
        · cases h
          exact fun x hx => nomatch hx
        · cases h
          exact fun x hx => hx
      · cases h
        exact fun x hx => List.mem_cons.mpr (Or.inl (List.mem_singleton.mp hx))

/-- Layers merge without a violation of their own. A name under which the registry accepts what each layer has gets an
accepted value; so every key that is reported when the result is sealed has a violation in some layer, and layers
without violations make a map that can be sealed. -/
theorem merging_creates_no_violation (number : Nat) (keys : List ConfigKey) (r : Registry)
    (h : Registry.ofKeys number keys = .ok r) (layers : List Value) (hlayers : ∀ layer ∈ layers, IsLayer layer) :
    ∃ c, (mergeLayers r layers).result = .ok c ∧
      (∀ name : String,
        (∀ layer ∈ layers, ∀ v, layer.Gives name v → r.validate (.str name) v = .ok none) →
        ∀ v, (.str name, v) ∈ c.entries → r.validate (.str name) v = .ok none) ∧
      (∀ collect e, (c.toSealed collect).result = .error e → ∀ x ∈ e.reported,
        ∃ name, x.key = .str name ∧
          ∃ layer ∈ layers, ∃ v, layer.Gives name v ∧ r.validate (.str name) v ≠ .ok none) ∧
      ((∀ name, ∀ layer ∈ layers, ∀ v, layer.Gives name v → r.validate (.str name) v = .ok none) →
        ∀ collect, ∃ d, (c.toSealed collect).result = .ok d) := by
  have haccepted (name : String)
      (hvalid : ∀ layer ∈ layers, ∀ v, layer.Gives name v → r.validate (.str name) v = .ok none) (v : Value)
      (hv : (.str name, v) ∈ (layered r layers).entries) : r.validate (.str name) v = .ok none :=
    Registry.validate_eq_ok_none_iff.mpr <| allows_of_layered (Registry.accumulatesLists_of_ofKeys h)
      (fun layer hlayer w hw => Registry.validate_eq_ok_none_iff.mp (hvalid layer hlayer w hw)) hv
  refine ⟨layered r layers, mergeLayers_result r hlayers, haccepted, ?_, ?_⟩
  · intro collect e he x hx
    obtain ⟨⟨k, v⟩, hentry, hviolation⟩ := Registry.validate_of_mem_found (reported_of_toSealed he x hx)
    obtain ⟨name, rfl⟩ : ∃ name, k = .str name := exists_str_of_mem_layered hentry
    refine ⟨name, Registry.key_of_validate hviolation, ?_⟩
    by_contra hnone
    push Not at hnone
    cases (haccepted name hnone v hentry).symm.trans hviolation
  · intro hvalid collect
    have hall : ∀ e ∈ (layered r layers).entries, r.allows e.1 e.2 = true := by
      rintro ⟨k, v⟩ he
      obtain ⟨name, rfl⟩ : ∃ name, k = .str name := exists_str_of_mem_layered he
      exact Registry.validate_eq_ok_none_iff.mp (haccepted name (hvalid name) v he)
    exact ⟨_, toSealed_of_inspect rfl (Registry.inspect_eq_nil_iff.mpr hall) collect⟩

/-- A key that accumulates texts, and one for a whole number. -/
def textsAndCount : List ConfigKey := [⟨"k", some Shape.strings, "", true⟩, ⟨"n", some .integer, "", false⟩]

/-- Texts in a tuple and in a closed map, and a text where a whole number belongs. -/
def mixedLayers : List Value := [
  .null,
  .map [(.str "k", .tuple [.str "a"]), (.str "n", .str "b")],
  .config none true [(.str "k", .frozenList [.str "c"])]]

theorem only_the_layers_violation_is_reported :
    ∃ r c e x, Registry.ofKeys 1 textsAndCount = .ok r ∧ (mergeLayers r mixedLayers).result = .ok c ∧
      (.str "k", .list [.str "a", .str "c"]) ∈ c.entries ∧
      r.validate (.str "k") (.list [.str "a", .str "c"]) = .ok none ∧
      (c.toSealed true).result = .error e ∧ e.reported = [x] ∧
      ∃ name, x.key = .str name ∧
        ∃ layer ∈ mixedLayers, ∃ v, layer.Gives name v ∧ r.validate (.str name) v ≠ .ok none := by
  have hlayers : ∀ layer ∈ mixedLayers, IsLayer layer := by
    simp only [mixedLayers, List.forall_mem_cons, IsLayer]
    exact ⟨.inl trivial, .inr ⟨_, rfl, by decide⟩, .inr ⟨_, rfl, by decide⟩, List.forall_mem_nil _⟩
  have htexts : ∀ layer ∈ mixedLayers, ∀ v, layer.Gives "k" v →
      Registry.validate ⟨textsAndCount, 1⟩ (.str "k") v = .ok none := by
    simp only [mixedLayers, List.forall_mem_cons, Value.Gives, mapping?]
    refine ⟨?_, ?_, ?_, List.forall_mem_nil _⟩
    · rintro v ⟨es, hes, -⟩
      cases hes
    · rintro v ⟨es, hes, hv⟩
      cases hes
      obtain rfl : v = .tuple [.str "a"] := by simpa using hv
      rfl
    · rintro v ⟨es, hes, hv⟩
      cases hes
      obtain rfl : v = .frozenList [.str "c"] := by simpa using hv
      rfl
  obtain ⟨c, hc, hvalid, hreported, -⟩ := merging_creates_no_violation 1 textsAndCount _ rfl mixedLayers hlayers
  obtain rfl :
      ConfigMap.mk ⟨textsAndCount, 1⟩ [(.str "k", .list [.str "a", .str "c"]), (.str "n", .str "b")] false = c :=
    Except.ok.inj ((mergeLayers_result _ hlayers).symm.trans hc)
  have hsealed : (toSealed ⟨⟨textsAndCount, 1⟩, [(.str "k", .list [.str "a", .str "c"]), (.str "n", .str "b")],
      false⟩ true).result = .error (.invalid [⟨.str "n", "an integer", .str "b", none, ""⟩]) := rfl
  exact ⟨_, _, _, _, rfl, hc, List.mem_cons_self, hvalid "k" htexts _ List.mem_cons_self, hsealed, rfl,
    hreported true _ hsealed _ List.mem_cons_self⟩

end ConfigMap
end TopologyConfig
