import TopologyConfig.Proofs.Session.Proper
import TopologyConfig.Proofs.Session.Refresh

/-!
What every command leaves behind: each list, map or set that can be reached from outside bears a label, and the
values are up to date. More labels would change nothing.
-/
namespace TopologyConfig

open Value ConfigMap

namespace Value

/-- No list, map or set stands in the value without a label on it or around it. -/
inductive Marked : Value → Prop where
  | label (l : Nat) (v : Value) : Marked (.labelled l v)
  | inside (v : Value) (hc : v.isContainer = false) (h : ∀ x ∈ v.inside, Marked x) : Marked v

variable {f : Value → Value} {v : Value}

theorem isContainer_mapInside (f : Value → Value) (v : Value) : (mapInside f v).isContainer = v.isContainer := by
  cases v <;> rfl

theorem marked_withLabels (v : Value) (next : Nat) : Marked (v.withLabels next).1 := by
  have hitems {xs : List Value} (ih : ∀ x ∈ xs, ∀ next, Marked (x.withLabels next).1) (next : Nat) :
      ∀ y ∈ (itemsWithLabels next xs).1, Marked y := by
    intro y hy
    obtain ⟨x, hx, n, rfl⟩ := exists_of_forall₂ (labels_items next xs) hy
    exact ih x hx n
  have hentries {es : Entries} (ih : ∀ e ∈ es, ∀ next, Marked (e.2.withLabels next).1) (next : Nat) :
      ∀ y ∈ (entriesWithLabels next es).1.map (·.2), Marked y := by
    intro y hy
    obtain ⟨d, hd, rfl⟩ := List.mem_map.mp hy
    obtain ⟨e, he, -, n, hn⟩ := (labels_entries next es).of_mem hd
    exact hn ▸ ih e he n
  induction v using induction generalizing next with
  | leaf v h =>
    rw [withLabels_of_isLeaf h]
    cases v <;> first | exact absurd h Bool.false_ne_true | exact .inside _ rfl (by simp [Value.inside])
  | frozenList xs ih => exact .inside _ rfl (hitems (fun x hx next => ih x hx next) next)
  | tuple xs ih => exact .inside _ rfl (hitems (fun x hx next => ih x hx next) next)
  | frozenMap es ih => exact .inside _ rfl (hentries (fun e he next => ih e he next) next)
  | view es ih => exact .inside _ rfl (hentries (fun e he next => ih e he next) next)
  | config n b es => exact .inside _ rfl (by simp [withLabels, Value.inside])
  | labelled l v => exact .label l v
  | _ => exact .label _ _

theorem itemsWithLabels_eq_self {xs : List Value} (h : ∀ x ∈ xs, ∀ next, x.withLabels next = (x, next))
    (next : Nat) : itemsWithLabels next xs = (xs, next) := by
  induction xs with
  | nil => rfl
  | cons x xs ih =>
    obtain ⟨hfirst, hrest⟩ := List.forall_mem_cons.mp h
    simp [itemsWithLabels, hfirst, ih hrest]

theorem entriesWithLabels_eq_self {es : Entries} (h : ∀ x ∈ es.map (·.2), ∀ next, x.withLabels next = (x, next))
    (next : Nat) : entriesWithLabels next es = (es, next) := by
  induction es with
  | nil => rfl
  | cons e es ih =>
    obtain ⟨hfirst, hrest⟩ := List.forall_mem_cons.mp h
    simp [entriesWithLabels, hfirst, ih hrest]

theorem withLabels_of_marked (h : Marked v) (next : Nat) : v.withLabels next = (v, next) := by
  induction h generalizing next with
  | label l v => rfl
  | inside v hc _ ih =>
    cases v with
    | list | map | set => cases hc
    | frozenList xs | tuple xs =>
      have hxs : itemsWithLabels next xs = (xs, next) := itemsWithLabels_eq_self ih next
      rw [withLabels, hxs]
    | frozenMap es | view es =>
      have hes : entriesWithLabels next es = (es, next) := entriesWithLabels_eq_self ih next
      rw [withLabels, hes]
    | _ => rfl

theorem Marked.mapInside (h : ∀ x ∈ v.inside, Marked (f x)) (hc : v.isContainer = false) :
    Marked (Value.mapInside f v) := by
  refine .inside _ (by rwa [isContainer_mapInside]) ?_
  rw [inside_mapInside]
  exact List.forall_mem_map.mpr h

theorem Marked.refreshed (h : Marked v) (maps : List ConfigMap) : Marked (v.refreshed maps) := by
  induction h with
  | label l v => exact .label l _
  | inside v hc _ ih =>
    by_cases hv : v.IsHeld
    · obtain ⟨n, b, es, rfl⟩ := hv
      obtain ⟨b', es', heq⟩ := exists_refreshed_config maps n b es
      exact heq ▸ .inside _ rfl (by simp [Value.inside])
    · exact (refreshed_eq_mapInside hv).symm ▸ .mapInside ih hc

theorem Marked.relabelled (h : Marked v) (label : Nat) (contents : Value) :
    Marked (Value.relabelled label contents v) := by
  induction h with
  | label l v =>
    rw [Value.relabelled]
    split <;> exact .label l _
  | inside v hc _ ih =>
    by_cases hv : ∃ x, v = .labelled label x
    · obtain ⟨x, rfl⟩ := hv
      rw [relabelled_label]
      exact .label label contents
    · exact (relabelled_eq_mapInside fun x hx => hv ⟨x, hx⟩).symm ▸ .mapInside ih hc

end Value

namespace Session

variable {s s' : Session} {k : Command}

/-- In all values of all maps the parts that can change bear labels. -/
def IsMarked (s : Session) : Prop := ∀ c ∈ s.maps, ∀ e ∈ c.entries, Marked e.2

theorem isMarked_label (s : Session) : s.label.IsMarked := by
  intro d hd f hf
  obtain ⟨c, hc, -, -, hes⟩ := (walked_label s).of_mem hd
  obtain ⟨e, he, -, n, hn⟩ := hes.of_mem hf
  exact hn ▸ marked_withLabels e.2 n

theorem IsMarked.refresh (h : s.IsMarked) : s.refresh.IsMarked := by
  obtain ⟨maps, hmaps⟩ := s.exists_refresh_maps
  intro d hd f hf
  rw [hmaps] at hd
  obtain ⟨c, hc, rfl⟩ := List.mem_map.mp hd
  rw [ConfigMap.refreshed, refreshedEntries_eq_mapValues] at hf
  obtain ⟨e, he, rfl⟩ := mem_mapValues.mp hf
  exact (h c hc e he).refreshed maps

/-- A session whose parts bear labels gets none. -/
theorem IsMarked.label_eq (h : s.IsMarked) : s.label = s := by
  have hentries (next : Nat) (es : Entries) (h : ∀ e ∈ es, Marked e.2) : entriesWithLabels next es = (es, next) :=
    entriesWithLabels_eq_self (List.forall_mem_map.mpr fun e he => withLabels_of_marked (h e he)) next
  have hmaps (next : Nat) (cs : List ConfigMap) (h : ∀ c ∈ cs, ∀ e ∈ c.entries, Marked e.2) :
      labelMaps next cs = (cs, next) := by
    induction cs with
    | nil => rfl
    | cons c cs ih =>
      obtain ⟨hfirst, hrest⟩ := List.forall_mem_cons.mp h
      simp [labelMaps, hentries next c.entries hfirst, ih hrest]
  simp [label, hmaps s.labels s.maps h]

theorem after_eq_some_iff {n : Nat} (hn : s.number? k.name = some n) :
    s.after k = some s' ↔ s' = (s.perform n k.bound k.step).session.label.refresh := by
  simp [after, run, hn, eq_comm]

theorem exists_perform_of_after (h : s.after k = some s') : ∃ t : Session, s' = t.label.refresh := by
  obtain ⟨e, he, rfl⟩ := Option.map_eq_some_iff.mp h
  obtain ⟨n, -, rfl⟩ := Option.map_eq_some_iff.mp he
  exact ⟨_, rfl⟩

theorem Reached.isMarked {r : Registry} (h : Reached r s) : s.IsMarked := by
  cases h with
  | start =>
    intro c hc e he
    cases List.mem_singleton.mp hc
    cases he
  | step s s' k _ _ h =>
    obtain ⟨t, rfl⟩ := exists_perform_of_after h
    exact (isMarked_label t).refresh

theorem Reached.settled {r : Registry} (h : Reached r s) (ha : s.Acyclic) : s.Settled := by
  cases h with
  | start => rfl
  | step s s' k _ _ h =>
    obtain ⟨t, rfl⟩ := exists_perform_of_after h
    exact settled_of_maps_eq_map (acyclic_refresh_iff.mp ha).refresh_maps

end Session
end TopologyConfig
