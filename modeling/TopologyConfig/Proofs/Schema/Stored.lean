import TopologyConfig.Proofs.ConfigMap.Registration
import TopologyConfig.Proofs.ConfigMap.Sealing
import TopologyConfig.Proofs.Schema.Thawed
import TopologyConfig.Proofs.Value.Proper

/-!
Verdicts do not depend on how a value is stored. Freezing and thawing change the form of the lists and maps in a value
and nothing else, so a shape accepts the changed value exactly if it accepts the value. Only a mapping that is no map
becomes one when it is thawed.
-/
namespace TopologyConfig

open Value

namespace Value

variable {count : Nat} {v w : Value} {es : Entries} {xs : List Value}

/-- Every mapping in the value is a map, plain or frozen. -/
inductive HoldsMapsOnly : Value → Prop where
  | leaf (v : Value) (h : v.isLeaf = true) : HoldsMapsOnly v
  | list (xs : List Value) (h : ∀ x ∈ xs, HoldsMapsOnly x) : HoldsMapsOnly (.list xs)
  | frozenList (xs : List Value) (h : ∀ x ∈ xs, HoldsMapsOnly x) : HoldsMapsOnly (.frozenList xs)
  | tuple (xs : List Value) (h : ∀ x ∈ xs, HoldsMapsOnly x) : HoldsMapsOnly (.tuple xs)
  | set (xs : List Value) : HoldsMapsOnly (.set xs)
  | map (es : Entries) (h : ∀ e ∈ es, HoldsMapsOnly e.2) : HoldsMapsOnly (.map es)
  | frozenMap (es : Entries) (h : ∀ e ∈ es, HoldsMapsOnly e.2) : HoldsMapsOnly (.frozenMap es)
  | labelled (label : Nat) (v : Value) (h : HoldsMapsOnly v) : HoldsMapsOnly (.labelled label v)

theorem mapping?_of_mapEntries? (h : v.mapEntries? = some es) : v.mapping? = some es := by
  induction v using Value.induction with
  | leaf v hl => cases v <;> simp_all [isLeaf, mapEntries?]
  | labelled l v ih => exact ih h
  | map fs _ | frozenMap fs _ => exact h
  | _ => cases h

theorem parts?_of_items? (h : v.items? = some xs) : v.parts? = some xs := by
  induction v using Value.induction with
  | leaf v hl => cases v <;> simp_all [isLeaf, items?]
  | labelled l v ih => exact ih h
  | list ys _ | frozenList ys _ | tuple ys _ => exact h
  | _ => cases h

theorem HoldsMapsOnly.items (h : v.HoldsMapsOnly) (hxs : v.items? = some xs) : ∀ x ∈ xs, x.HoldsMapsOnly := by
  induction h with
  | leaf v hl => cases v <;> simp_all [isLeaf, items?]
  | list ys h _ | frozenList ys h _ | tuple ys h _ =>
    cases hxs
    exact h
  | labelled l v _ ih => exact ih hxs
  | _ => cases hxs

theorem HoldsMapsOnly.entries (h : v.HoldsMapsOnly) (hes : v.mapEntries? = some es) : ∀ e ∈ es, e.2.HoldsMapsOnly := by
  induction h with
  | leaf v hl => cases v <;> simp_all [isLeaf, mapEntries?]
  | map fs h _ | frozenMap fs h _ =>
    cases hes
    exact h
  | labelled l v _ ih => exact ih hes
  | _ => cases hes

/-- The function changes only the form of the values with the property: leaves stay as they are, and the items of lists
and the entries of maps stay in their places. -/
structure ChangesFormOnly (P : Value → Prop) (f : Value → Value) : Prop where
  leaf : ∀ v, v.isLeaf = true → f v = v
  isLeaf : ∀ v, P v → (f v).isLeaf = true → v.isLeaf = true
  items? : ∀ v, P v → (f v).items? = v.items?.map (List.map f)
  mapEntries? : ∀ v, P v → (f v).mapEntries? = v.mapEntries?.map (mapValues f)
  items : ∀ v xs, P v → v.items? = some xs → ∀ x ∈ xs, P x
  entries : ∀ v es, P v → v.mapEntries? = some es → ∀ e ∈ es, P e.2

namespace ChangesFormOnly

variable {P : Value → Prop} {f : Value → Value}

/-- The changed value is a leaf only if it was that leaf before. -/
theorem eq_iff_of_isLeaf (h : ChangesFormOnly P f) (hv : P v) (hw : w.isLeaf = true) : f v = w ↔ v = w := by
  constructor
  · rintro rfl
    exact (h.leaf v (h.isLeaf v hv hw)).symm
  · rintro rfl
    exact h.leaf v hw

theorem accepts_of_isScalar (h : ChangesFormOnly P f) (hv : P v) {s : Shape} (hs : s.isScalar = true) :
    s.accepts (f v) = s.accepts v := by
  cases hl : v.isLeaf with
  | true => rw [h.leaf v hl]
  | false =>
    have hnot (w : Value) (hw : w.isLeaf = false) : s.accepts w = false :=
      Bool.eq_false_iff.mpr fun ha => by simp [Shape.isLeaf_of_accepts hs ha] at hw
    have hchanged : (f v).isLeaf = false := Bool.eq_false_iff.mpr fun hf => by simp [h.isLeaf v hv hf] at hl
    rw [hnot v hl, hnot (f v) hchanged]

theorem isIdentifier_eq (h : ChangesFormOnly P f) (hv : P v) : Shape.isIdentifier (f v) = Shape.isIdentifier v := by
  simpa [Shape.accepts] using h.accepts_of_isScalar hv (s := .identifier) rfl

/-- A field that may only hold a leaf is at fault after the change exactly if it was before. -/
theorem fieldFault_iff (h : ChangesFormOnly P f) (hes : ∀ e ∈ es, P e.2) {fault? : Option Value → Option FaultCause}
    (hfault : ∀ v, fault? (some v) = none → v.isLeaf = true) (key : Value) :
    fault? (Entries.get? (mapValues f es) key) = none ↔ fault? (Entries.get? es key) = none := by
  rw [Entries.get?_mapValues]
  cases hv : Entries.get? es key with
  | none => rfl
  | some v =>
    have hP : P v := by
      obtain ⟨e, he, -, rfl⟩ := Entries.mem_of_get? hv
      exact hes e he
    rw [Option.map_some]
    constructor
    · intro hnone
      rwa [h.leaf v (h.isLeaf v hP (hfault _ hnone))] at hnone
    · intro hnone
      rwa [h.leaf v (hfault _ hnone)]

theorem entryFaults_iff (h : ChangesFormOnly P f) (hes : ∀ e ∈ es, P e.2) :
    MetricsConsumer.entryFaults (mapValues f es) = [] ↔ MetricsConsumer.entryFaults es = [] := by
  have hargument : MetricsConsumer.argumentFault? (Entries.get? (mapValues f es) (.str "argument")) =
      MetricsConsumer.argumentFault? (Entries.get? es (.str "argument")) := by
    rw [Entries.get?_mapValues]
    cases Entries.get? es (.str "argument") <;> rfl
  rw [MetricsConsumer.entryFaults_eq_nil_iff, MetricsConsumer.entryFaults_eq_nil_iff,
    h.fieldFault_iff hes fun _ => MetricsConsumer.isLeaf_of_classFault?,
    h.fieldFault_iff hes fun _ => MetricsConsumer.isLeaf_of_hintFault?, hargument, Entries.keys_mapValues]

/-- The verdict of a shape does not depend on the form. -/
theorem accepts_eq (h : ChangesFormOnly P f) (hv : P v) (s : Shape) : s.accepts (f v) = s.accepts v := by
  induction s using Shape.induction generalizing v with
  | scalar s hs => exact h.accepts_of_isScalar hv hs
  | map => simp [Shape.accepts, h.mapEntries? v hv]
  | serializationEntry =>
    rw [Bool.eq_iff_iff, Shape.accepts, Shape.accepts, Shape.isSerializationEntry_iff, Shape.isSerializationEntry_iff]
    refine or_congr (exists_congr fun s => and_congr_left' (h.eq_iff_of_isLeaf hv rfl)) ?_
    rw [h.mapEntries? v hv]
    cases hes : v.mapEntries? with
    | none => simp
    | some es =>
      -- Of a single entry the key stays, and the value is a name in both forms or in neither.
      rcases es with _ | ⟨⟨k, w⟩, _ | ⟨_, _⟩⟩
      · simp [mapValues]
      · simp [mapValues, h.isIdentifier_eq (h.entries v _ hv hes (k, w) (by simp))]
      · simp [mapValues]
  | metricsConsumerEntry =>
    rw [Bool.eq_iff_iff, Shape.accepts, Shape.accepts, Shape.metricsConsumerProblem_eq_none_iff,
      Shape.metricsConsumerProblem_eq_none_iff]
    refine or_congr (exists_congr fun s => and_congr_left' (h.eq_iff_of_isLeaf hv rfl)) ?_
    rw [h.mapEntries? v hv]
    cases hes : v.mapEntries? with
    | none => simp
    | some es => simp [h.entryFaults_iff (h.entries v es hv hes)]
  | listOf s ih =>
    rw [Shape.accepts, Shape.accepts, h.items? v hv]
    cases hxs : v.items? with
    | none => rfl
    | some xs =>
      have hall : ∀ x ∈ xs, s.accepts (f x) = s.accepts x := fun x hx => ih (h.items v xs hv hxs x hx)
      rw [Bool.eq_iff_iff]
      simp +contextual [hall]
  | oneOf ss ih =>
    rw [Bool.eq_iff_iff, Shape.accepts, Shape.accepts, Shape.anyAccepts_iff, Shape.anyAccepts_iff]
    exact exists_congr fun s => and_congr_right fun hs => by rw [ih s hs hv]

end ChangesFormOnly

theorem changesFormOnly_freeze : ChangesFormOnly (Proper count) freeze where
  leaf _ := freeze_of_isLeaf
  isLeaf v hv h := by
    induction hv with
    | leaf v hl => exact hl
    | labelled l v hc _ _ =>
      cases v <;> first | exact absurd hc Bool.false_ne_true | exact absurd h Bool.false_ne_true
    | _ => exact absurd h Bool.false_ne_true
  items? v hv := by
    induction hv with
    | leaf v hl => cases v <;> first | rfl | exact absurd hl Bool.false_ne_true
    | labelled l v hc _ ih =>
      rcases freeze_labelled_cases l v with ⟨xs, rfl⟩ | h
      · rfl
      · rw [h, ih, Value.items?]
    | _ => simp [freeze, Value.items?, freezeItems_eq_map]
  mapEntries? v hv := by
    induction hv with
    | leaf v hl => cases v <;> first | rfl | exact absurd hl Bool.false_ne_true
    | labelled l v hc _ ih =>
      rcases freeze_labelled_cases l v with ⟨xs, rfl⟩ | h
      · rfl
      · rw [h, ih, Value.mapEntries?]
    | _ => simp [freeze, Value.mapEntries?, freezeEntries_eq_mapValues]
  items v xs hv hxs := hv.part (parts?_of_items? hxs)
  entries v es hv hes := (hv.entries (mapping?_of_mapEntries? hes)).values

theorem changesFormOnly_thaw : ChangesFormOnly (fun v => Proper count v ∧ v.HoldsMapsOnly) thaw where
  leaf _ := thaw_of_isLeaf
  isLeaf v hv h := by
    obtain ⟨hv, -⟩ := hv
    induction hv with
    | leaf v hl => exact hl
    | labelled l v hc _ _ =>
      cases v <;> first | exact absurd hc Bool.false_ne_true | exact absurd h Bool.false_ne_true
    | _ => exact absurd h Bool.false_ne_true
  items? v hv := by
    obtain ⟨-, hv⟩ := hv
    induction hv with
    | leaf v hl => cases v <;> first | rfl | exact absurd hl Bool.false_ne_true
    | labelled l v _ ih => rw [thaw_labelled, ih, Value.items?]
    | _ => simp [Value.items?]
  mapEntries? v hv := by
    obtain ⟨-, hv⟩ := hv
    induction hv with
    | leaf v hl => cases v <;> first | rfl | exact absurd hl Bool.false_ne_true
    | labelled l v _ ih => rw [thaw_labelled, ih, Value.mapEntries?]
    | _ => simp [Value.mapEntries?]
  items v xs hv hxs x hx := ⟨hv.1.part (parts?_of_items? hxs) x hx, hv.2.items hxs x hx⟩
  entries v es hv hes e he := ⟨(hv.1.entries (mapping?_of_mapEntries? hes)).values e he, hv.2.entries hes e he⟩

end Value
namespace Registry

variable {r : Registry} {count : Nat} {key v : Value}

theorem allows_eq {P : Value → Prop} {f : Value → Value} (h : ChangesFormOnly P f) (hv : P v) :
    r.allows key (f v) = r.allows key v := by
  rw [Bool.eq_iff_iff, allows_iff, allows_iff]
  simp only [h.eq_iff_of_isLeaf hv (w := .null) rfl, h.accepts_eq hv]

end Registry

namespace ConfigMap

variable {c : ConfigMap} {count : Nat} {v : Value}

/-- A value gets one verdict under a name, whether a call checks it before it sets it, the map checks what it stores, or
what a sealed map stores is checked. -/
def GivesOneVerdict (c : ConfigMap) (name : String) (v : Value) : Prop :=
  ∃ d w, c.set (.str name) v = .ok d ∧ Entries.get? d.entries (.str name) = some w ∧
    (∀ collect e, (d.toSealed collect).result = .ok e → Entries.get? e.entries (.str name) = some w.freeze) ∧
    (c.setChecked (.str name) v = .ok d ↔ c.registry.validate (.str name) v = .ok none) ∧
    (c.registry.validate (.str name) w = .ok none ↔ c.registry.validate (.str name) v = .ok none) ∧
    (c.registry.validate (.str name) w.freeze = .ok none ↔ c.registry.validate (.str name) v = .ok none)

theorem setChecked_str_eq_ok_iff (ho : c.isSealed = false) (name : String) :
    c.setChecked (.str name) v = .ok (c.withScalar name v) ↔ c.registry.validate (.str name) v = .ok none := by
  rw [Registry.validate_eq_ok_none_iff, ← Registry.check_str_eq_ok_iff]
  cases hc : c.registry.check (.str name) v with
  | error e => simp [setChecked, ho, hc, bind, Except.bind]
  | ok _ => simp [setChecked, ho, hc, bind, Except.bind, set_str ho, withScalar]

theorem givesOneVerdict (ho : c.isSealed = false) (name : String) (hv : v.Proper count) (hmaps : v.HoldsMapsOnly) :
    c.GivesOneVerdict name v := by
  have hstored : c.registry.allows (.str name) v.thaw = c.registry.allows (.str name) v :=
    Registry.allows_eq changesFormOnly_thaw ⟨hv, hmaps⟩
  have hsealed : c.registry.allows (.str name) v.thaw.freeze = c.registry.allows (.str name) v.thaw :=
    Registry.allows_eq changesFormOnly_freeze hv.thaw
  refine ⟨c.withScalar name v, v.thaw, set_str ho name v, Entries.get?_put_str_self _ _, fun collect e he => ?_,
    setChecked_str_eq_ok_iff ho name, ?_, ?_⟩
  · obtain ⟨-, rfl⟩ := (toSealed_eq_ok_iff (c := c.withScalar name v) ho).mp he
    rw [frozen, freezeEntries_eq_mapValues, Entries.get?_mapValues, withScalar, Entries.get?_put_str_self]
    rfl
  · rw [Registry.validate_eq_ok_none_iff, Registry.validate_eq_ok_none_iff, hstored]
  · rw [Registry.validate_eq_ok_none_iff, Registry.validate_eq_ok_none_iff, hsealed, hstored]

/-- Shapes do not see how a value is stored: they accept its frozen form exactly if they accept the value, and its plain
form too if they accept the value. If every mapping in it is a map, they accept the plain form exactly if they accept
the value, and a map gives one verdict on it wherever it is checked. -/
theorem verdicts_ignore_storage (v : Value) (hv : v.Proper count) :
    (∀ s : Shape, s.accepts v.freeze = s.accepts v) ∧
    (∀ s : Shape, s.accepts v = true → s.accepts v.thaw = true) ∧
    (v.HoldsMapsOnly →
      (∀ s : Shape, s.accepts v.thaw = s.accepts v) ∧
      ∀ (c : ConfigMap) (name : String), c.isSealed = false → c.GivesOneVerdict name v) := by
  refine ⟨changesFormOnly_freeze.accepts_eq hv, fun s => Shape.accepts_thaw, fun hmaps => ⟨?_, ?_⟩⟩
  · exact changesFormOnly_thaw.accepts_eq ⟨hv, hmaps⟩
  · exact fun c name ho => givesOneVerdict ho name hv hmaps

/-- Metrics consumers in a tuple: a frozen record, whose argument is a list that may stand in other places, and a
name. -/
def storedConsumers : Value :=
  .tuple [.frozenMap [(.str "class", .str "m.Log"), (.str "parallelism.hint", .int 2),
    (.str "argument", .labelled 0 (.list [.tuple []]))], .str "m.Bare"]

theorem consumers_in_tuple_get_one_verdict :
    storedConsumers.Proper 0 ∧ storedConsumers.HoldsMapsOnly ∧
      Shape.metricsConsumers.accepts storedConsumers = true ∧
      Shape.metricsConsumers.accepts storedConsumers.freeze = true ∧
      (empty Registry.standard).GivesOneVerdict "topology.metrics.consumer.register" storedConsumers := by
  have hkey (s : String) : IsKey (.str s) := .leaf _ rfl
  have hname (s : String) : (Value.str s).Proper 0 ∧ (Value.str s).HoldsMapsOnly := ⟨.leaf _ rfl, .leaf _ rfl⟩
  have hhint : (Value.int 2).Proper 0 ∧ (Value.int 2).HoldsMapsOnly := ⟨.leaf _ rfl, .leaf _ rfl⟩
  have hargument : (Value.labelled 0 (.list [.tuple []])).Proper 0 ∧
      (Value.labelled 0 (.list [.tuple []])).HoldsMapsOnly :=
    ⟨.labelled 0 _ rfl (.list _ (by simp [Proper.tuple])), .labelled 0 _ (.list _ (by simp [HoldsMapsOnly.tuple]))⟩
  have hproper : storedConsumers.Proper 0 := by
    refine .tuple _ (List.forall_mem_cons.mpr ⟨.frozenMap _ ?_ ?_ ?_, by simp [hname]⟩)
    · simp [Entries.Distinct, same_str_str]
    · simp [hkey]
    · simp [hname, hhint, hargument]
  have hmaps : storedConsumers.HoldsMapsOnly :=
    .tuple _ (List.forall_mem_cons.mpr ⟨.frozenMap _ (by simp [hname, hhint, hargument]), by simp [hname]⟩)
  obtain ⟨hfreeze, -, hsame⟩ := verdicts_ignore_storage storedConsumers hproper
  have haccepts : Shape.metricsConsumers.accepts storedConsumers = true := by decide
  exact ⟨hproper, hmaps, haccepts, (hfreeze _).trans haccepts, (hsame hmaps).2 _ _ rfl⟩

/-- A view is no map until it is thawed. -/
example : Shape.map.accepts (.view []) = false ∧ Shape.map.accepts (Value.view []).thaw = true := by decide

end ConfigMap
end TopologyConfig
