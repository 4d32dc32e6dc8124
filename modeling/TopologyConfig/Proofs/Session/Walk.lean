import TopologyConfig.Proofs.Entries
import TopologyConfig.Session

/-!
The walks through all maps of a session: new parts get labels, the contents of a label are replaced, and held
configurations are brought up to date. Each changes the values under the keys and leaves the keys alone.
-/
namespace TopologyConfig

open Value

namespace Value

variable (label : Nat) (contents : Value) (maps : List ConfigMap)

theorem relabelledItems_eq_map (xs : List Value) :
    relabelledItems label contents xs = xs.map (relabelled label contents) := by
  induction xs with
  | nil => rfl
  | cons x xs ih => simp [relabelledItems, ih]

theorem relabelledEntries_eq_mapValues (es : Entries) :
    relabelledEntries label contents es = mapValues (relabelled label contents) es := by
  induction es with
  | nil => rfl
  | cons e es ih => simp [relabelledEntries, mapValues, ih]

theorem refreshedItems_eq_map (xs : List Value) : refreshedItems maps xs = xs.map (refreshed maps) := by
  induction xs with
  | nil => rfl
  | cons x xs ih => simp [refreshedItems, ih]

theorem refreshedEntries_eq_mapValues (es : Entries) :
    refreshedEntries maps es = mapValues (refreshed maps) es := by
  induction es with
  | nil => rfl
  | cons e es ih => simp [refreshedEntries, mapValues, ih]

theorem relabelled_of_isLeaf {v : Value} (h : v.isLeaf = true) : relabelled label contents v = v := by
  cases v <;> first | rfl | simp [isLeaf] at h

theorem refreshed_of_isLeaf {v : Value} (h : v.isLeaf = true) : v.refreshed maps = v := by
  cases v <;> first | rfl | simp [isLeaf] at h

theorem withLabels_of_isLeaf {v : Value} (h : v.isLeaf = true) (next : Nat) : v.withLabels next = (v, next) := by
  cases v <;> first | rfl | simp [isLeaf] at h

/-- The second value is the first one with labels on its parts. -/
def Labels (v w : Value) : Prop := ∃ next, w = (v.withLabels next).1

theorem labels_items (next : Nat) (xs : List Value) : List.Forall₂ Labels xs (itemsWithLabels next xs).1 := by
  induction xs generalizing next with
  | nil => exact .nil
  | cons x xs ih => exact .cons ⟨next, rfl⟩ (ih _)

theorem labels_entries (next : Nat) (es : Entries) : es.Pointwise Labels (entriesWithLabels next es).1 := by
  induction es generalizing next with
  | nil => exact .nil
  | cons e es ih => exact .cons ⟨rfl, next, rfl⟩ (ih _)

end Value

namespace Session

/-- The maps with other values under their keys. -/
def Walked (R : Value → Value → Prop) (cs ds : List ConfigMap) : Prop :=
  List.Forall₂ (fun c d => d.registry = c.registry ∧ d.isSealed = c.isSealed ∧ c.entries.Pointwise R d.entries) cs ds

theorem walked_map {R : Value → Value → Prop} {f : Value → Value} {cs : List ConfigMap}
    (h : ∀ c ∈ cs, ∀ e ∈ c.entries, R e.2 (f e.2)) :
    Walked R cs (cs.map fun c => { c with entries := mapValues f c.entries }) := by
  induction cs with
  | nil => exact .nil
  | cons c cs ih =>
    obtain ⟨hfirst, hrest⟩ := List.forall_mem_cons.mp h
    exact .cons ⟨rfl, rfl, Entries.pointwise_mapValues hfirst⟩ (ih hrest)

theorem walked_label (s : Session) : Walked Labels s.maps s.label.maps := by
  have hmaps (next : Nat) (cs : List ConfigMap) : Walked Labels cs (labelMaps next cs).1 := by
    induction cs generalizing next with
    | nil => exact .nil
    | cons c cs ih => exact .cons ⟨rfl, rfl, labels_entries next c.entries⟩ (ih _)
  exact hmaps s.labels s.maps

theorem walked_refreshRound (cs : List ConfigMap) : Walked (fun v w => w = v.refreshed cs) cs (refreshRound cs) := by
  simp only [refreshRound, refreshedEntries_eq_mapValues]
  exact walked_map fun _ _ _ _ => rfl

theorem walked_replace (s : Session) (label : Nat) (v : Value) :
    Walked (fun x y => y = relabelled label (v.withLabels s.labels).1.bare x) s.maps (s.replace label v).maps := by
  simp only [replace, relabelledEntries_eq_mapValues]
  exact walked_map fun _ _ _ _ => rfl

theorem Walked.of_mem {R : Value → Value → Prop} {cs ds : List ConfigMap} (h : Walked R cs ds) {d : ConfigMap}
    (hd : d ∈ ds) :
    ∃ c ∈ cs, d.registry = c.registry ∧ d.isSealed = c.isSealed ∧ c.entries.Pointwise R d.entries :=
  exists_of_forall₂ h hd

theorem Walked.getElem?_eq_some {R : Value → Value → Prop} {cs ds : List ConfigMap} (h : Walked R cs ds) {n : Nat}
    {c : ConfigMap} (hc : cs[n]? = some c) :
    ∃ d, ds[n]? = some d ∧ d.registry = c.registry ∧ d.isSealed = c.isSealed ∧ c.entries.Pointwise R d.entries := by
  induction h generalizing n with
  | nil => cases hc
  | @cons a d cs ds had _ ih =>
    cases n with
    | zero =>
      cases hc
      exact ⟨d, rfl, had⟩
    | succ n => exact ih hc

end Session
end TopologyConfig
