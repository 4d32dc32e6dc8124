import TopologyConfig.ConfigMap.Append
import TopologyConfig.Proofs.ConfigMap.Basic
import Mathlib.Logic.Relation

/-!
What can happen to one map. Whatever operation is applied to it, the map goes through edits: a value is put under
a key, a key is removed, all are, or the map is closed. A sealed map is not edited any more.
-/
namespace TopologyConfig

open Value Relation

/-- A property of values that passes from those that come in to those that are stored. The other property is
what the keys of a map have; every text has it. -/
structure Hereditary (A P : Value → Prop) : Prop where
  name : ∀ s, A (.str s)
  leaf : ∀ v : Value, v.isLeaf = true → P v
  list : ∀ xs, (∀ x ∈ xs, P x) → P (.list xs)
  tuple : ∀ xs, (∀ x ∈ xs, P x) → P (.tuple xs)
  map : ∀ es : Entries, es.Distinct → (∀ e ∈ es, P e.1 ∧ e.1.unhashable? = none ∧ P e.2) → P (.map es)
  thaw : ∀ v, P v → P v.thaw
  freeze : ∀ v, P v → P v.freeze
  part : ∀ v xs, P v → v.parts? = some xs → ∀ x ∈ xs, P x
  entry : ∀ v es, P v → v.mapping? = some es → ∀ e ∈ es, P e.2

namespace ConfigMap

variable {A P : Value → Prop} {c d : ConfigMap} {key v : Value}

/-- One change of a map. Only a key that the map does not have yet has to satisfy the property of keys. What is put
under a key is no tuple, because it is in plain form or a list. -/
inductive Edit (A P : Value → Prop) : ConfigMap → ConfigMap → Prop where
  | put (c : ConfigMap) (key v : Value) (ho : c.isSealed = false)
      (hk : Entries.get? c.entries key = none → A key) (hv : P v) (ht : v.isTuple = false) :
      Edit A P c { c with entries := Entries.put key v c.entries }
  | remove (c : ConfigMap) (key : Value) (ho : c.isSealed = false) :
      Edit A P c { c with entries := Entries.remove key c.entries }
  | clear (c : ConfigMap) (ho : c.isSealed = false) : Edit A P c { c with entries := [] }
  | close (c : ConfigMap) (ho : c.isSealed = false) (hv : c.registry.inspect c.entries = ⟨[], none⟩) :
      Edit A P c c.frozen

abbrev Edits (A P : Value → Prop) : ConfigMap → ConfigMap → Prop := ReflTransGen (Edit A P)

theorem Edit.isSealed_eq_false (h : Edit A P c d) : c.isSealed = false := by
  cases h <;> assumption

theorem Edit.registry_eq (h : Edit A P c d) : d.registry = c.registry := by
  cases h <;> rfl

theorem Edits.registry_eq (h : Edits A P c d) : d.registry = c.registry := by
  induction h with
  | refl => rfl
  | tail _ hlast ih => rw [hlast.registry_eq, ih]

theorem Edit.holds (H : Hereditary A P) (h : Edit A P c d) (hc : c.entries.Holds A P) :
    d.entries.Holds A P := by
  cases h with
  | put key v ho hk hv _ => exact Entries.holds_put hc hk hv
  | remove key ho => exact Entries.holds_remove hc
  | clear ho => exact Entries.holds_nil
  | close ho hv =>
    rw [frozen, freezeEntries_eq_mapValues]
    exact Entries.holds_mapValues hc fun e he => H.freeze e.2 (hc.values e he)

theorem Edits.holds (H : Hereditary A P) (h : Edits A P c d) (hc : c.entries.Holds A P) :
    d.entries.Holds A P := by
  induction h with
  | refl => exact hc
  | tail _ hlast ih => exact hlast.holds H ih

theorem holds_of_edits_empty (H : Hereditary A P) {r : Registry} (h : Edits A P (empty r) c) :
    c.entries.Holds A P :=
  h.holds H Entries.holds_nil

section operations

variable (H : Hereditary A P)
include H

theorem edits_set (hv : P v) (h : c.set key v = .ok d) : Edits A P c d := by
  obtain ⟨ho, hk, rfl⟩ := set_eq_ok_iff.mp h
  obtain ⟨s, rfl⟩ := Value.exists_str_of_isString hk
  exact .single (.put c _ _ ho (fun _ => H.name s) (H.thaw v hv) (isTuple_thaw v))

omit H in
theorem edits_remove (h : c.remove key = .ok d) : Edits A P c d := by
  cases ho : c.isSealed with
  | true => simp [ConfigMap.remove, ensureOpen, ho, bind, Except.bind] at h
  | false =>
    simp only [ConfigMap.remove, bind_eq_ok] at h
    obtain ⟨-, -, v, -, hd⟩ := h
    cases hd
    exact .single (.remove c key ho)

omit H in
theorem edits_clear (h : c.clear = .ok d) : Edits A P c d := by
  cases ho : c.isSealed with
  | true => simp [ConfigMap.clear, ensureOpen, ho, bind, Except.bind] at h
  | false =>
    simp only [ConfigMap.clear, bind_eq_ok] at h
    obtain ⟨-, -, hd⟩ := h
    cases hd
    exact .single (.clear c ho)

omit H in
theorem edits_pop {default? : Option Value} (h : c.pop key default? = .ok (v, d)) : Edits A P c d := by
  simp only [ConfigMap.pop, bind_eq_ok] at h
  obtain ⟨found, -, h⟩ := h
  split at h
  · obtain ⟨c', hc', hd⟩ := bind_eq_ok.mp h
    cases hd
    exact edits_remove hc'
  · cases h
    exact .refl
  · cases h

omit H in
theorem edits_popFirst (h : c.popFirst = .ok (key, v, d)) : Edits A P c d := by
  unfold ConfigMap.popFirst at h
  split at h
  · cases h
  · obtain ⟨c', hc', hd⟩ := bind_eq_ok.mp h
    cases hd
    exact edits_remove hc'

theorem edits_setDefault {default : Value} (hv : P default) (h : c.setDefault key default = .ok (v, d)) :
    Edits A P c d := by
  simp only [ConfigMap.setDefault, bind_eq_ok] at h
  obtain ⟨found, -, h⟩ := h
  split at h
  · cases h
    exact .refl
  · obtain ⟨c', hc', hd⟩ := bind_eq_ok.mp h
    cases hd
    exact edits_set H hv hc'

/-- The values that come in with a part of an update have the property. -/
def Assignment.Supplies (P : Value → Prop) : Assignment → Prop
  | .entry _ v => P v
  | .element v => P v
  | .failure _ => True

theorem assignments_supply (hv : P v) : ∀ a ∈ assignments v, a.Supplies P := by
  intro a ha
  unfold assignments at ha
  split at ha
  · obtain ⟨e, he, rfl⟩ := List.mem_map.mp ha
    exact H.entry v _ hv (by assumption) e he
  · obtain ⟨x, hx, rfl⟩ := List.mem_map.mp ha
    exact H.part v _ hv (parts?_of_parts (by assumption)) x hx
  · cases List.mem_singleton.mp ha
    trivial

omit H in
theorem parts?_of_unpack {v k x : Value} (h : unpack v = .ok (k, x)) : v.parts? = some [k, x] := by
  unfold unpack at h
  split at h
  · cases h
  · cases h
    assumption
  · split at h <;> cases h

theorem edits_assign {a : Assignment} (ha : a.Supplies P) (h : c.assign a = .ok d) : Edits A P c d := by
  cases a with
  | entry k v => exact edits_set H ha h
  | element v =>
    rw [ConfigMap.assign] at h
    split at h
    · exact edits_set H (H.part v _ ha (parts?_of_unpack (by assumption)) _ (by simp)) h
    · cases h
  | failure e => cases h

theorem edits_assignAll {as : List Assignment} (ha : ∀ a ∈ as, a.Supplies P) :
    Edits A P c (c.assignAll as).1 := by
  induction as generalizing c with
  | nil => exact .refl
  | cons a as ih =>
    obtain ⟨hfirst, hrest⟩ := List.forall_mem_cons.mp ha
    unfold assignAll
    split
    · exact (edits_assign H hfirst (by assumption)).trans (ih hrest)
    · exact .refl

theorem edits_update (hv : P v) : Edits A P c (c.update v).1 :=
  edits_assignAll H (assignments_supply H hv)

theorem edits_ofEntries {r : Registry} {es : Entries} (hv : ∀ e ∈ es, P e.2) (h : ofEntries r es = .ok d) :
    Edits A P (empty r) d := by
  have hall : ∀ a ∈ es.map (fun e => Assignment.entry e.1 e.2), a.Supplies P := by
    intro a ha
    obtain ⟨e, he, rfl⟩ := List.mem_map.mp ha
    exact hv e he
  have := edits_assignAll (c := empty r) H hall
  unfold ofEntries at h
  split at h
  · rename_i heq
    cases h
    rwa [heq] at this
  · cases h

theorem edits_ofValue {r : Registry} (hv : ∀ es, v.mapping? = some es → ∀ e ∈ es, P e.2)
    (h : ofValue r v = .ok d) : Edits A P (empty r) d := by
  unfold ofValue at h
  split at h
  · cases h
    exact .refl
  · exact edits_ofEntries H (hv _ (by assumption)) h
  · cases h

omit H in
theorem edits_toSealed {collect : Bool} (h : (c.toSealed collect).result = .ok d) : Edits A P c d := by
  unfold toSealed at h
  split at h
  · cases h
    exact .refl
  · rename_i ho
    dsimp only at h
    split at h
    · rename_i hf hn
      cases h
      refine .single (.close c (by simpa using ho) ?_)
      generalize c.registry.inspect c.entries = i at hf hn
      obtain ⟨found, stopped⟩ := i
      simp_all
    · cases h
    · split at h
      · split at h <;> cases h
      · cases h

theorem edits_rebuild {r : Registry} {es : Entries} {sealIt : Bool} (hv : ∀ e ∈ es, P e.2)
    (h : (rebuild r es sealIt).result = .ok d) : Edits A P (empty r) d := by
  unfold rebuild at h
  split at h
  · cases h
  · have hmade := edits_ofEntries (A := A) H hv (by assumption)
    split at h
    · exact hmade.trans (edits_toSealed h)
    · cases h
      exact hmade

theorem edits_copy (hc : c.entries.Holds A P) (h : c.copy = .ok d) : Edits A P (empty c.registry) d :=
  edits_ofEntries H hc.values h

theorem edits_deepCopy (hc : c.entries.Holds A P) (h : c.deepCopy.result = .ok d) :
    Edits A P (empty c.registry) d := by
  refine edits_rebuild H (fun e he => ?_) h
  rw [plainEntries, thawEntries_eq_mapValues] at he
  obtain ⟨e', he', rfl⟩ := mem_mapValues.mp he
  exact H.thaw e'.2 (hc.values e' he')

omit H in
theorem parts?_of_listItems? {v : Value} {xs : List Value} (h : v.listItems? = some xs) : v.parts? = some xs := by
  induction v using Value.induction with
  | leaf v hl => cases v <;> simp_all [isLeaf, listItems?]
  | labelled l v ih => exact ih h
  | _ => simp_all [listItems?, parts?]

theorem supplied_asEntries (hv : P v) : ∀ x ∈ asEntries v, P x := by
  unfold asEntries
  split
  · simp
  · exact H.part _ _ hv (parts?_of_listItems? (by assumption))
  · simpa using hv

theorem supplied_get? (hc : c.entries.Holds A P) : P ((Entries.get? c.entries key).getD .null) := by
  cases hg : Entries.get? c.entries key with
  | none => exact H.leaf _ rfl
  | some w =>
    obtain ⟨e, he, -, rfl⟩ := Entries.mem_of_get? hg
    exact hc.values e he

theorem supplied_getD (hc : c.entries.Holds A P) (h : c.getD key .null = .ok v) : P v := by
  simp only [ConfigMap.getD, find?, bind_eq_ok] at h
  obtain ⟨found, ⟨-, -, hf⟩, h⟩ := h
  cases h
  cases hf
  exact supplied_get? H hc

theorem edits_mergeEntry (hc : c.entries.Holds A P) (hv : P v) (h : c.mergeEntry key v = .ok d) :
    Edits A P c d := by
  unfold mergeEntry at h
  split at h
  · split at h
    · obtain ⟨⟨w, c'⟩, hc', rfl⟩ := map_eq_ok.mp h
      exact edits_setDefault H (H.leaf _ rfl) hc'
    · obtain ⟨held, hheld, h⟩ := bind_eq_ok.mp h
      refine edits_set H (H.list _ fun x hx => ?_) h
      rcases List.mem_append.mp hx with hx | hx
      · exact supplied_asEntries H (supplied_getD H hc hheld) x hx
      · exact supplied_asEntries H (H.thaw _ hv) x hx
  · exact edits_set H hv h

theorem edits_mergeEntries {es : Entries} (hc : c.entries.Holds A P) (hv : ∀ e ∈ es, P e.2)
    (h : mergeEntries c es = .ok d) : Edits A P c d := by
  induction es generalizing c with
  | nil =>
    cases h
    exact .refl
  | cons e es ih =>
    obtain ⟨hfirst, hrest⟩ := List.forall_mem_cons.mp hv
    simp only [mergeEntries, bind_eq_ok] at h
    obtain ⟨c', hc', h⟩ := h
    have hstep := edits_mergeEntry H hc hfirst hc'
    exact hstep.trans (ih (hstep.holds H hc) hrest h)

theorem edits_merge {r : Registry} {base overlay : Value}
    (hb : ∀ es, base.mapping? = some es → ∀ e ∈ es, P e.2)
    (ho : ∀ es, overlay.mapping? = some es → ∀ e ∈ es, P e.2)
    (h : (merge r base overlay).result = .ok d) : Edits A P (empty r) d := by
  unfold merge at h
  split at h
  · cases h
  · have hmade := edits_ofValue (A := A) H hb (by assumption)
    split at h
    · cases h
    · split at h
      · cases h
      · cases h
      · cases h
        exact hmade.trans (edits_mergeEntries H (holds_of_edits_empty H hmade) (ho _ (by assumption))
          (by assumption))

theorem edits_mergeLayer {r : Registry} {layer : Value} (hc : Edits A P (empty r) c) (hv : P layer)
    (h : (c.mergeLayer layer).result = .ok d) : Edits A P (empty r) d := by
  unfold mergeLayer at h
  split at h
  · cases h
    exact hc
  · rw [hc.registry_eq] at h
    refine edits_merge H (fun es hes => ?_) (fun es hes => H.entry _ _ hv hes) h
    cases hes
    exact (holds_of_edits_empty H hc).values

theorem edits_mergeOnto {r : Registry} {layers : List Value} (hc : Edits A P (empty r) c)
    (hv : ∀ v ∈ layers, P v) (h : (c.mergeOnto layers).result = .ok d) : Edits A P (empty r) d := by
  induction layers generalizing c with
  | nil =>
    cases h
    exact hc
  | cons layer layers ih =>
    obtain ⟨hfirst, hrest⟩ := List.forall_mem_cons.mp hv
    rw [mergeOnto, Logged.andThen] at h
    split at h
    · cases h
    · exact ih (edits_mergeLayer H hc hfirst (by assumption)) hrest h

theorem edits_mergeLayers {r : Registry} {layers : List Value} (hv : ∀ v ∈ layers, P v)
    (h : (mergeLayers r layers).result = .ok d) : Edits A P (empty r) d :=
  edits_mergeOnto H .refl hv h

theorem edits_append (hc : c.entries.Holds A P) {entry : Value} (hv : P entry)
    (hk : c.isSealed = false → key.unhashable? = none → Entries.get? c.entries key = none → A key) :
    Edits A P c (c.append key entry).after := by
  unfold append
  split
  · exact .refl
  · rename_i ho
    split
    · exact .refl
    · rename_i hh
      split
      · split <;> exact .refl
      · refine .single (.put c key _ (by simpa using ho) (hk (by simpa using ho) (hashable_eq_ok_iff.mp hh))
          (H.list _ fun x hx => ?_) rfl)
        rcases List.mem_append.mp hx with hx | hx
        · exact supplied_asEntries H (supplied_get? H hc) x hx
        · cases List.mem_singleton.mp hx
          exact H.thaw _ hv

end operations

end ConfigMap
end TopologyConfig
