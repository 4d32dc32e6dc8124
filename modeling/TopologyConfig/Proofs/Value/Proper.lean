import TopologyConfig.Proofs.ConfigMap.Basic

/-!
Proper values, as programs can make them: the keys of a mapping are distinct and can be keys, only what can change
bears a label, and configurations are named by numbers in use. Thawing and freezing keep values proper.
-/
namespace TopologyConfig.Value

/-- A value that can be a key, without labels. -/
inductive IsKey : Value → Prop where
  | leaf (v : Value) (h : v.isLeaf = true) : IsKey v
  | tuple (xs : List Value) (h : ∀ x ∈ xs, IsKey x) : IsKey (.tuple xs)

/-- The value is a list, map or set that is not frozen. -/
def isContainer : Value → Bool
  | list _ | set _ | map _ => true
  | _ => false

/-- The value is one that a program can make, with numbers of configurations below the given one. -/
inductive Proper (count : Nat) : Value → Prop where
  | leaf (v : Value) (h : v.isLeaf = true) : Proper count v
  | list (xs : List Value) (h : ∀ x ∈ xs, Proper count x) : Proper count (.list xs)
  | frozenList (xs : List Value) (h : ∀ x ∈ xs, Proper count x) : Proper count (.frozenList xs)
  | tuple (xs : List Value) (h : ∀ x ∈ xs, Proper count x) : Proper count (.tuple xs)
  | set (xs : List Value) (h : ∀ x ∈ xs, IsKey x) : Proper count (.set xs)
  | map (es : Entries) (hd : es.Distinct) (hk : ∀ e ∈ es, IsKey e.1) (hv : ∀ e ∈ es, Proper count e.2) :
      Proper count (.map es)
  | frozenMap (es : Entries) (hd : es.Distinct) (hk : ∀ e ∈ es, IsKey e.1) (hv : ∀ e ∈ es, Proper count e.2) :
      Proper count (.frozenMap es)
  | view (es : Entries) (hd : es.Distinct) (hk : ∀ e ∈ es, IsKey e.1) (hv : ∀ e ∈ es, Proper count e.2) :
      Proper count (.view es)
  | config (number : Nat) (isSealed : Bool) (es : Entries) (hn : number < count) (hd : es.Distinct)
      (hk : ∀ e ∈ es, IsKey e.1) (hv : ∀ e ∈ es, Proper count e.2) :
      Proper count (.config (some number) isSealed es)
  | labelled (label : Nat) (v : Value) (hc : v.isContainer = true) (hv : Proper count v) :
      Proper count (.labelled label v)

variable {count : Nat} {v k : Value}

theorem unhashableItem?_eq_none {xs : List Value} : unhashableItem? xs = none ↔ ∀ x ∈ xs, x.unhashable? = none := by
  induction xs with
  | nil => simp [unhashableItem?]
  | cons x xs ih =>
    rw [unhashableItem?, List.forall_mem_cons, ← ih]
    cases x.unhashable? <;> simp

theorem IsKey.unhashable? (h : IsKey k) : k.unhashable? = none := by
  induction h with
  | leaf v h => cases v <;> first | rfl | exact absurd h Bool.false_ne_true
  | tuple xs _ ih => exact unhashableItem?_eq_none.mpr ih

theorem IsKey.proper (h : IsKey k) : Proper count k := by
  induction h with
  | leaf v h => exact .leaf v h
  | tuple xs _ ih => exact .tuple xs ih

theorem Proper.isKey (h : Proper count v) (hu : v.unhashable? = none) : IsKey v := by
  induction h with
  | leaf v h => exact .leaf v h
  | tuple xs _ ih => exact .tuple xs fun x hx => ih x hx (unhashableItem?_eq_none.mp hu x hx)
  | labelled l v hc _ _ => cases v <;> cases hc <;> cases hu
  | _ => cases hu

theorem Proper.mono {more : Nat} (h : Proper count v) (hle : count ≤ more) : Proper more v := by
  induction h with
  | leaf v h => exact .leaf v h
  | list xs _ ih => exact .list xs ih
  | frozenList xs _ ih => exact .frozenList xs ih
  | tuple xs _ ih => exact .tuple xs ih
  | set xs h => exact .set xs h
  | map es hd hk _ ih => exact .map es hd hk ih
  | frozenMap es hd hk _ ih => exact .frozenMap es hd hk ih
  | view es hd hk _ ih => exact .view es hd hk ih
  | config n b es hn hd hk _ ih => exact .config n b es (Nat.lt_of_lt_of_le hn hle) hd hk ih
  | labelled l v hc _ ih => exact .labelled l v hc ih

theorem isKey_mapValues {f : Value → Value} {es : Entries} (h : ∀ e ∈ es, IsKey e.1) :
    ∀ e ∈ mapValues f es, IsKey e.1 := by
  intro e he
  obtain ⟨d, hd, rfl⟩ := mem_mapValues.mp he
  exact h d hd

theorem forall_mapValues {P : Value → Prop} {f : Value → Value} {es : Entries} (h : ∀ e ∈ es, P (f e.2)) :
    ∀ e ∈ mapValues f es, P e.2 := by
  intro e he
  obtain ⟨d, hd, rfl⟩ := mem_mapValues.mp he
  exact h d hd

theorem Proper.thaw (h : Proper count v) : Proper count v.thaw := by
  induction h with
  | leaf v h => exact (thaw_of_isLeaf h).symm ▸ .leaf v h
  | list xs _ ih | frozenList xs _ ih | tuple xs _ ih =>
    first | rw [thaw_list] | rw [thaw_frozenList] | rw [thaw_tuple]
    exact .list _ (List.forall_mem_map.mpr ih)
  | set xs h => exact .set xs h
  | map es hd hk _ ih | frozenMap es hd hk _ ih | view es hd hk _ ih | config n b es hn hd hk _ ih =>
    first | rw [thaw_map] | rw [thaw_frozenMap] | rw [thaw_view] | rw [thaw_config]
    exact .map _ (Entries.distinct_mapValues hd) (isKey_mapValues hk) (forall_mapValues ih)
  | labelled l v _ _ ih => rwa [thaw_labelled]

theorem Proper.freeze (h : Proper count v) : Proper count v.freeze := by
  induction h with
  | leaf v h => exact (freeze_of_isLeaf h).symm ▸ .leaf v h
  | list xs _ ih | frozenList xs _ ih | tuple xs _ ih =>
    rw [Value.freeze, freezeItems_eq_map]
    exact .frozenList _ (List.forall_mem_map.mpr ih)
  | set xs h => exact .set xs h
  | map es hd hk _ ih | frozenMap es hd hk _ ih =>
    rw [Value.freeze, freezeEntries_eq_mapValues]
    exact .frozenMap _ (Entries.distinct_mapValues hd) (isKey_mapValues hk) (forall_mapValues ih)
  | view es hd hk hv _ => exact .view es hd hk hv
  | config n b es hn hd hk hv _ => exact .config n b es hn hd hk hv
  | labelled l v hc hv ih =>
    cases v with
    | set xs => exact .labelled l _ rfl hv
    | _ => exact ih

theorem Proper.part (h : Proper count v) {xs : List Value} (hxs : v.parts? = some xs) :
    ∀ x ∈ xs, Proper count x := by
  have hkeys {es : Entries} (hk : ∀ e ∈ es, IsKey e.1) : ∀ x ∈ Entries.keys es, Proper count x := by
    intro x hx
    obtain ⟨e, he, rfl⟩ := List.mem_map.mp hx
    exact (hk e he).proper
  induction h with
  | leaf v h =>
    cases v with
    | str s =>
      cases hxs
      exact List.forall_mem_map.mpr fun c _ => .leaf _ rfl
    | bytes bs =>
      cases hxs
      exact List.forall_mem_map.mpr fun c _ => .leaf _ rfl
    | _ => first | exact absurd h Bool.false_ne_true | cases hxs
  | list xs h _ | frozenList xs h _ | tuple xs h _ =>
    cases hxs
    exact h
  | set xs h =>
    cases hxs
    exact fun x hx => (h x hx).proper
  | map es _ hk _ _ | frozenMap es _ hk _ _ | view es _ hk _ _ | config _ _ es _ _ hk _ _ =>
    cases hxs
    exact hkeys hk
  | labelled l v _ _ ih => exact ih hxs

/-- The entries of a proper mapping. -/
theorem Proper.entries (h : Proper count v) {es : Entries} (hes : v.mapping? = some es) :
    es.Holds IsKey (Proper count) := by
  induction h with
  | leaf v h => cases v <;> first | exact absurd h Bool.false_ne_true | cases hes
  | map es hd hk hv _ | frozenMap es hd hk hv _ | view es hd hk hv _ | config _ _ es _ hd hk hv _ =>
    cases hes
    exact ⟨hd, hk, hv⟩
  | labelled l v _ _ ih => exact ih hes
  | _ => cases hes

theorem Proper.bare (h : Proper count v) : Proper count v.bare := by
  induction h with
  | leaf v h => cases v <;> first | exact absurd h Bool.false_ne_true | exact .leaf _ rfl
  | list xs h _ => exact .list xs h
  | frozenList xs h _ => exact .frozenList xs h
  | tuple xs h _ => exact .tuple xs h
  | set xs h => exact .set xs h
  | map es hd hk hv _ => exact .map es hd hk hv
  | frozenMap es hd hk hv _ => exact .frozenMap es hd hk hv
  | view es hd hk hv _ => exact .view es hd hk hv
  | config n b es hn hd hk hv _ => exact .config n b es hn hd hk hv
  | labelled l v _ _ ih => exact ih

end TopologyConfig.Value
