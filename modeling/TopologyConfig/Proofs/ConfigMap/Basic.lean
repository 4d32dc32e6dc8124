import TopologyConfig.ConfigMap.Basic
import TopologyConfig.Proofs.Entries

/-!
What the operations on one map do. A value is stored only under a string, in an open map and in plain form; a
map is made from entries exactly if their keys are strings.
-/
namespace TopologyConfig

open Value

theorem Value.exists_str_of_isString {k : Value} (h : k.isString = true) : ∃ s, k = .str s := by
  cases k <;> simp_all [isString]

section

variable {ε ε' α β : Type}

theorem bind_eq_ok {x : Except ε α} {f : α → Except ε β} {b : β} :
    (x >>= f) = .ok b ↔ ∃ a, x = .ok a ∧ f a = .ok b := by
  cases x <;> simp [bind, Except.bind]

theorem map_eq_ok {x : Except ε α} {f : α → β} {b : β} : x.map f = .ok b ↔ ∃ a, x = .ok a ∧ f a = b := by
  cases x <;> simp [Except.map]

theorem mapError_eq_ok {x : Except ε α} {f : ε → ε'} {a : α} : x.mapError f = .ok a ↔ x = .ok a := by
  cases x <;> simp [Except.mapError]

theorem toOption_eq_some {x : Except ε α} {a : α} : x.toOption = some a ↔ x = .ok a := by
  cases x <;> simp [Except.toOption]

end

theorem Value.hashable_eq_ok_iff {key : Value} : Value.hashable key = .ok () ↔ key.unhashable? = none := by
  unfold Value.hashable
  cases key.unhashable? <;> simp

theorem Value.parts?_of_parts {v : Value} {xs : List Value} (h : v.parts = .ok xs) : v.parts? = some xs := by
  unfold Value.parts at h
  split at h
  · cases h
    assumption
  · cases h

namespace ConfigMap

variable {c : ConfigMap} {key : Value}

theorem hashable_eq_ok_iff : hashable key = .ok () ↔ key.unhashable? = none :=
  mapError_eq_ok.trans Value.hashable_eq_ok_iff

theorem set_eq_ok_iff {v : Value} {d : ConfigMap} :
    c.set key v = .ok d ↔ c.isSealed = false ∧ key.isString = true ∧
      d = { c with entries := Entries.put key v.thaw c.entries } := by
  cases hs : c.isSealed <;> cases hk : key.isString <;>
    simp [ConfigMap.set, ensureOpen, hs, hk, bind, Except.bind, pure, Except.pure, eq_comm]

theorem set_of_isString (ho : c.isSealed = false) (hk : key.isString = true) (v : Value) :
    c.set key v = .ok { c with entries := Entries.put key v.thaw c.entries } :=
  set_eq_ok_iff.mpr ⟨ho, hk, rfl⟩

theorem set_str (ho : c.isSealed = false) (s : String) (v : Value) :
    c.set (.str s) v = .ok { c with entries := Entries.put (.str s) v.thaw c.entries } :=
  set_of_isString ho rfl v

theorem set_of_not_isString (ho : c.isSealed = false) (hk : key.isString = false) (v : Value) :
    c.set key v = .error (.keyNotString key.typeName) := by
  simp [ConfigMap.set, ensureOpen, ho, hk, bind, Except.bind]

theorem find?_str (c : ConfigMap) (s : String) : c.find? (.str s) = .ok (Entries.get? c.entries (.str s)) := rfl

theorem assignAll_entries (ho : c.isSealed = false) {es : Entries} (hs : ∀ e ∈ es, e.1.isString = true) :
    c.assignAll (es.map (fun e => .entry e.1 e.2)) =
      ({ c with entries := Entries.putAll c.entries (mapValues thaw es) }, none) := by
  induction es generalizing c with
  | nil => rfl
  | cons e es ih =>
    obtain ⟨he, hs⟩ := List.forall_mem_cons.mp hs
    simp only [List.map_cons, assignAll, assign, set_of_isString ho he]
    exact ih (c := { c with entries := Entries.put e.1 e.2.thaw c.entries }) ho hs

/-- A key that is no string stops a map from being made from entries. -/
theorem assignAll_entries_error (ho : c.isSealed = false) {es : Entries}
    (hs : ∃ e ∈ es, e.1.isString = false) :
    ∃ d name, c.assignAll (es.map (fun e => .entry e.1 e.2)) = (d, some (.keyNotString name)) := by
  induction es generalizing c with
  | nil => simp at hs
  | cons e es ih =>
    by_cases he : e.1.isString = true
    · have hrest : ∃ e ∈ es, e.1.isString = false := by simpa [he] using hs
      simp only [List.map_cons, assignAll, assign, set_of_isString ho he]
      exact ih (c := { c with entries := Entries.put e.1 e.2.thaw c.entries }) ho hrest
    · simp [assignAll, assign, set_of_not_isString ho (by simpa using he)]

theorem ofEntries_of_isString (r : Registry) {es : Entries} (hs : ∀ e ∈ es, e.1.isString = true) :
    ofEntries r es = .ok ⟨r, Entries.putAll [] (mapValues thaw es), false⟩ := by
  rw [ofEntries, assignAll_entries rfl hs]
  rfl

theorem ofEntries_eq_keyNotString (r : Registry) {es : Entries} (hs : ∃ e ∈ es, e.1.isString = false) :
    ∃ name, ofEntries r es = .error (.keyNotString name) := by
  obtain ⟨d, name, h⟩ := assignAll_entries_error (c := empty r) rfl hs
  exact ⟨name, by rw [ofEntries, h]⟩

/-- Entries in plain form under distinct names are taken over as they are. -/
theorem ofEntries_ofNames (r : Registry) {names : List String} (hn : names.Nodup) {f : String → Value}
    (hf : ∀ n, (f n).thaw = f n) :
    ofEntries r (Entries.ofNames names f) = .ok ⟨r, Entries.ofNames names f, false⟩ := by
  have hs : ∀ e ∈ Entries.ofNames names f, e.1.isString = true := by
    simp [Entries.ofNames, isString]
  have hp : mapValues thaw (Entries.ofNames names f) = Entries.ofNames names f := by
    simp [mapValues, Entries.ofNames, hf]
  rw [ofEntries_of_isString r hs, hp, Entries.putAll_ofNames hn]

end ConfigMap
end TopologyConfig
