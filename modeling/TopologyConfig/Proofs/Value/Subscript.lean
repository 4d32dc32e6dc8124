import TopologyConfig.Proofs.Value.InPlace

/-!
What a subscript finds: every item of a list or tuple under its place, as long as an index can name it, and every
value of a mapping under its key.
-/
namespace TopologyConfig

open Value

namespace Value

theorem sameItems_self {xs : List Value} (h : ∀ x ∈ xs, x.same x = true) : sameItems xs xs = true := by
  induction xs with
  | nil => simp [sameItems]
  | cons x xs ih =>
    obtain ⟨hfirst, hrest⟩ := List.forall_mem_cons.mp h
    simp [sameItems, hfirst, ih hrest]

/-- A key is the same as itself, also one that is no number. -/
theorem IsKey.same_self {k : Value} (h : IsKey k) : k.same k = true := by
  induction h with
  | leaf v h =>
    cases v with
    | float x => simp [same, number?, Number.same, bare]
    | bool b => simp [same, number?, Number.same, bare, Number.compare?]
    | int n => simp [same, number?, Number.same, bare, Number.compare?]
    | timestamp t => simp [same, number?, bare, sameScalar, Timestamp.sameInstant, Timestamp.comparable]
    | _ => first | exact absurd h Bool.false_ne_true | simp [same, number?, bare, sameScalar]
  | tuple xs _ ih =>
    rw [same, bare.eq_2 _ (by simp)]
    exact sameItems_self ih

end Value

theorem Entries.get?_of_mem {es : Entries} (hd : es.Distinct) (hk : ∀ e ∈ es, IsKey e.1) {e : Value × Value}
    (he : e ∈ es) : Entries.get? es e.1 = some e.2 := by
  induction es with
  | nil => cases he
  | cons d es ih =>
    obtain ⟨hfirst, hrest⟩ := List.pairwise_cons.mp hd
    obtain ⟨hkey, hkeys⟩ := List.forall_mem_cons.mp hk
    rcases List.mem_cons.mp he with rfl | he
    · exact get?_cons_of_same es hkey.same_self
    · rw [get?_cons_of_not_same es (hfirst e he)]
      exact ih hrest hkeys he

namespace Value

/-- The items of a list are no more than an index can name. -/
def IsShort (xs : List Value) : Prop := xs.length ≤ 9223372036854775808

variable {P : Value → Prop} {xs : List Value} {x : Value} {es : Entries} {e : Value × Value}

theorem subscript_natCast {i : Nat} (hi : i < 9223372036854775808) (sequence : String) :
    subscript sequence (.int i) = .ok i := by
  have hword : isHuge (i : Int) = false := by
    simp only [isHuge, Numeral.isWord64, Bool.not_eq_false', Bool.and_eq_true, decide_eq_true_eq]
    omega
  simp [subscript, integer?, hword]

theorem placeAt_natCast {length i : Nat} (hi : i < length) (what : String) : placeAt what length i = .ok i := by
  have hpositive : ¬ (i : Int) < 0 := by omega
  simp [placeAt, place?, hpositive, hi]

/-- Some index finds an item of a list that is not too long. -/
theorem exists_inspectItems?_getItem (owner sequence : String) (hs : IsShort xs) (hx : x ∈ xs) :
    ∃ key, inspectItems? owner sequence xs .getItem [key] = some (.ok x) := by
  obtain ⟨i, hi, rfl⟩ := List.mem_iff_getElem.mp hx
  have hitem : itemAt xs i = xs[i] := by simp [itemAt, hi]
  refine ⟨.int i, ?_⟩
  simp [inspectItems?, subscript_natCast (Nat.lt_of_lt_of_le hi hs), placeAt_natCast hi, hitem, bind, Except.bind,
    pure, Except.pure]

theorem inspectEntries?_getItem (owner : String) (hes : es.Holds IsKey P) (he : e ∈ es) :
    inspectEntries? owner es .getItem [e.1] = some (.ok e.2) := by
  have hhash : hashable e.1 = .ok () := hashable_eq_ok_iff.mpr (hes.keys e he).unhashable?
  simp [inspectEntries?, hhash, Entries.get?_of_mem hes.distinct hes.keys he, bind, Except.bind, pure, Except.pure]

theorem Change.result_answered_of_ok {v : Value} {r : Except Misuse Value} (h : r = .ok x) :
    (answered v r).result = .ok x := by
  rw [h]
  rfl

theorem exists_getItem_frozenList (hs : IsShort xs) (hx : x ∈ xs) :
    ∃ key, ((frozenList xs).apply .getItem [key]).result = .ok x := by
  obtain ⟨key, hkey⟩ := exists_inspectItems?_getItem "FrozenList" "list" hs hx
  have hfound : inspect (frozenList xs) .getItem [key] = .ok x := by simp [inspect, hkey]
  exact ⟨key, Change.result_answered_of_ok hfound⟩

theorem exists_getItem_tuple (hs : IsShort xs) (hx : x ∈ xs) :
    ∃ key, ((tuple xs).apply .getItem [key]).result = .ok x := by
  obtain ⟨key, hkey⟩ := exists_inspectItems?_getItem "tuple" "tuple" hs hx
  have hfound : inspect (tuple xs) .getItem [key] = .ok x := by simp [inspect, hkey]
  exact ⟨key, Change.result_answered_of_ok hfound⟩

theorem getItem_frozenMap (hes : es.Holds IsKey P) (he : e ∈ es) :
    ((frozenMap es).apply .getItem [e.1]).result = .ok e.2 := by
  have hfound : inspect (frozenMap es) .getItem [e.1] = .ok e.2 := by
    simp [inspect, inspectEntries?_getItem "FrozenDict" hes he]
  exact Change.result_answered_of_ok hfound

theorem getItem_view (hes : es.Holds IsKey P) (he : e ∈ es) : ((view es).apply .getItem [e.1]).result = .ok e.2 := by
  have hfound : inspect (view es) .getItem [e.1] = .ok e.2 := by
    simp [inspect, inspectEntries?_getItem "mappingproxy" hes he]
  exact Change.result_answered_of_ok hfound

end Value

theorem ConfigMap.get_of_mem {P : Value → Prop} {c : ConfigMap} (hc : c.entries.Holds IsKey P) {e : Value × Value}
    (he : e ∈ c.entries) : c.get e.1 = .ok e.2 := by
  have hhash : ConfigMap.hashable e.1 = .ok () := ConfigMap.hashable_eq_ok_iff.mpr (hc.keys e he).unhashable?
  simp [ConfigMap.get, find?, hhash, Entries.get?_of_mem hc.distinct hc.keys he, bind, Except.bind, pure, Except.pure]

end TopologyConfig
