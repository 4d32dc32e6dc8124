import TopologyConfig.Proofs.Entries
import TopologyConfig.Schema.Registry

/-!
Verdicts on frozen values. A shape that accepts a value accepts its frozen form for the frozen parts alone, and
that verdict stands whatever becomes of the parts that are not frozen.
-/
namespace TopologyConfig

open Value

namespace Shape

/-- The shape accepts only values without parts. -/
def isScalar : Shape → Bool
  | string | number | integer | boolean | identifier | powerOfTwo => true
  | _ => false

/-- Induction over the shapes of elements and the choices. -/
@[elab_as_elim]
theorem induction {P : Shape → Prop}
    (scalar : ∀ s : Shape, s.isScalar = true → P s)
    (map : P map)
    (serializationEntry : P serializationEntry)
    (metricsConsumerEntry : P metricsConsumerEntry)
    (listOf : ∀ s, P s → P (listOf s))
    (oneOf : ∀ ss, (∀ s ∈ ss, P s) → P (oneOf ss)) (s : Shape) : P s :=
  @Shape.rec P (fun ss => ∀ s ∈ ss, P s)
    (scalar _ rfl) (scalar _ rfl) (scalar _ rfl) (scalar _ rfl) map (scalar _ rfl) (scalar _ rfl)
    serializationEntry metricsConsumerEntry listOf oneOf
    (fun _ h => absurd h List.not_mem_nil) (fun _ _ hs hss => List.forall_mem_cons.mpr ⟨hs, hss⟩) s

/-- The value is a text or a frozen map. -/
def isFixedEntry : Value → Bool
  | .str _ | .frozenMap _ => true
  | _ => false

mutual

/-- The shape accepts the value for its frozen parts alone. -/
def acceptsFrozen : Shape → Value → Bool
  | map, v =>
    match v with
    | .frozenMap _ => true
    | _ => false
  | serializationEntry, v => isFixedEntry v && isSerializationEntry v
  | metricsConsumerEntry, v => isFixedEntry v && (metricsConsumerProblem v).isNone
  | listOf element, v =>
    match v with
    | .frozenList xs => xs.all (fun x => acceptsFrozen element x)
    | _ => false
  | oneOf choices, v => anyAcceptsFrozen choices v
  | s, v => accepts s v

def anyAcceptsFrozen : List Shape → Value → Bool
  | [], _ => false
  | s :: rest, v => acceptsFrozen s v || anyAcceptsFrozen rest v

end

theorem anyAccepts_iff {ss : List Shape} {v : Value} :
    anyAccepts ss v = true ↔ ∃ s ∈ ss, s.accepts v = true := by
  induction ss with
  | nil => simp [anyAccepts]
  | cons s ss ih => simp [anyAccepts, ih]

theorem anyAcceptsFrozen_iff {ss : List Shape} {v : Value} :
    anyAcceptsFrozen ss v = true ↔ ∃ s ∈ ss, s.acceptsFrozen v = true := by
  induction ss with
  | nil => simp [anyAcceptsFrozen]
  | cons s ss ih => simp [anyAcceptsFrozen, ih]

theorem acceptsFrozen_of_isScalar {s : Shape} (h : s.isScalar = true) (v : Value) :
    s.acceptsFrozen v = s.accepts v := by
  cases s <;> simp_all [isScalar, acceptsFrozen]

theorem isLeaf_of_accepts {s : Shape} (hs : s.isScalar = true) {v : Value} (h : s.accepts v = true) :
    v.isLeaf = true := by
  cases v with
  | list | frozenList | tuple | set | map | frozenMap | view | config | labelled =>
    cases s <;> first | exact absurd hs Bool.false_ne_true | exact absurd h Bool.false_ne_true
  | _ => rfl

theorem accepts_of_acceptsFrozen {s : Shape} {v : Value} (h : s.acceptsFrozen v = true) : s.accepts v = true := by
  induction s using Shape.induction generalizing v with
  | scalar s hs => rwa [acceptsFrozen_of_isScalar hs] at h
  | map =>
    cases v <;> simp_all [acceptsFrozen, accepts, mapEntries?]
  | serializationEntry => exact (Bool.and_eq_true _ _ ▸ h).2
  | metricsConsumerEntry => exact (Bool.and_eq_true _ _ ▸ h).2
  | listOf s ih =>
    cases v with
    | frozenList xs =>
      have hall : ∀ x ∈ xs, s.acceptsFrozen x = true := by simpa [acceptsFrozen] using h
      have : ∀ x ∈ xs, s.accepts x = true := fun x hx => ih (hall x hx)
      simpa [accepts, items?] using this
    | _ => simp [acceptsFrozen] at h
  | oneOf ss ih =>
    obtain ⟨s, hs, h⟩ := anyAcceptsFrozen_iff.mp h
    exact anyAccepts_iff.mpr ⟨s, hs, ih s hs h⟩

end Shape

namespace Value

theorem freeze_of_items? {v : Value} {xs : List Value} (h : v.items? = some xs) :
    v.freeze = .frozenList (xs.map freeze) := by
  induction v using Value.induction with
  | leaf v hl => cases v <;> simp_all [isLeaf, items?]
  | labelled l v ih =>
    rcases freeze_labelled_cases l v with ⟨ys, rfl⟩ | hv
    · cases h
    · rw [hv, ih h]
  | _ => simp_all [items?, freeze, freezeItems_eq_map]

theorem freeze_of_mapEntries? {v : Value} {es : Entries} (h : v.mapEntries? = some es) :
    v.freeze = .frozenMap (mapValues freeze es) := by
  induction v using Value.induction with
  | leaf v hl => cases v <;> simp_all [isLeaf, mapEntries?]
  | labelled l v ih =>
    rcases freeze_labelled_cases l v with ⟨ys, rfl⟩ | hv
    · cases h
    · rw [hv, ih h]
  | _ => simp_all [mapEntries?, freeze, freezeEntries_eq_mapValues]

end Value

/-- A value keeps its frozen parts: one without parts stays as it is, and a frozen list or map stays one, with parts
that do the same. -/
structure KeepsFrozen (R : Value → Value → Prop) : Prop where
  leaf : ∀ v w, v.isLeaf = true → R v w → w = v
  frozenList : ∀ xs w, R (.frozenList xs) w → ∃ ys, w = .frozenList ys ∧ List.Forall₂ R xs ys
  frozenMap : ∀ es w, R (.frozenMap es) w → ∃ fs, w = .frozenMap fs ∧ Entries.Pointwise R es fs

namespace MetricsConsumer

variable {R : Value → Value → Prop} {es fs : Entries}

theorem fieldFault_eq_nil {name : String} {fault? : Option Value → Option FaultCause} :
    fieldFault name fault? es = [] ↔ fault? (Entries.get? es (.str name)) = none := by
  simp [fieldFault]

theorem entryFaults_eq_nil_iff : entryFaults es = [] ↔
    classFault? (Entries.get? es (.str "class")) = none ∧
    hintFault? (Entries.get? es (.str "parallelism.hint")) = none ∧
    argumentFault? (Entries.get? es (.str "argument")) = none ∧ ∀ k ∈ Entries.keys es, extraFault? k = none := by
  simp [entryFaults, fieldFault_eq_nil, List.filterMap_eq_nil_iff, Entries.keys]

theorem isLeaf_of_classFault? {v : Value} (h : classFault? (some v) = none) : v.isLeaf = true := by
  cases v <;> first | rfl | exact absurd h (Option.some_ne_none _)

theorem isLeaf_of_hintFault? {v : Value} (h : hintFault? (some v) = none) : v.isLeaf = true := by
  cases v <;> first | rfl | exact absurd h (Option.some_ne_none _)

/-- The verdict on a record depends on its keys, its class and its number of executors only. -/
theorem entryFaults_eq_nil_of_fields
    (hR : ∀ v w, classFault? (some v) = none ∨ hintFault? (some v) = none → R v w → w = v) (h : es.Pointwise R fs)
    (hes : entryFaults es = []) : entryFaults fs = [] := by
  obtain ⟨hclass, hhint, hargument, hextra⟩ := entryFaults_eq_nil_iff.mp hes
  have hkeys : Entries.keys fs = Entries.keys es := h.keys_eq
  refine entryFaults_eq_nil_iff.mpr ⟨?_, ?_, ?_, by rwa [hkeys]⟩
  · cases hv : Entries.get? es (.str "class") with
    | none => simp [hv, classFault?] at hclass
    | some v =>
      obtain ⟨w, hw, hr⟩ := h.get?_eq_some hv
      rwa [hw, hR v w (.inl (hv ▸ hclass)) hr, ← hv]
  · cases hv : Entries.get? es (.str "parallelism.hint") with
    | none => simp [hv, hintFault?] at hhint
    | some v =>
      obtain ⟨w, hw, hr⟩ := h.get?_eq_some hv
      rwa [hw, hR v w (.inr (hv ▸ hhint)) hr, ← hv]
  · cases hv : Entries.get? es (.str "argument") with
    | none => simp [hv, argumentFault?] at hargument
    | some v =>
      obtain ⟨w, hw, -⟩ := h.get?_eq_some hv
      simp [hw, argumentFault?]

theorem entryFaults_eq_nil_of_pointwise (hR : ∀ v w, v.isLeaf = true → R v w → w = v) (h : es.Pointwise R fs)
    (hes : entryFaults es = []) : entryFaults fs = [] :=
  entryFaults_eq_nil_of_fields (fun v w hv => hR v w (hv.elim isLeaf_of_classFault? isLeaf_of_hintFault?)) h hes

end MetricsConsumer
namespace Shape

variable {R : Value → Value → Prop}

theorem isSerializationEntry_iff {v : Value} : isSerializationEntry v = true ↔
    (∃ s, v = .str s ∧ Text.hasInk s = true) ∨
      ∃ c s, v.mapEntries? = some [(c, s)] ∧ isIdentifier c = true ∧ isIdentifier s = true := by
  unfold isSerializationEntry
  split
  · simp [mapEntries?]
  · rename_i hnot
    have hno (s : String) : v ≠ .str s := hnot s
    unfold serializationProblem
    split
    · exact absurd rfl (hnot _)
    · split
      · simp_all
      · rename_i c s hes
        cases hc : isIdentifier c <;> cases hs : isIdentifier s <;> simp [hes, hc, hs, hno]
      · rename_i es hmany hes
        have hlength (c s : Value) : es ≠ [(c, s)] := hmany c s
        simp [hes, hno, hlength]

theorem metricsConsumerProblem_eq_none_iff {v : Value} : (metricsConsumerProblem v).isNone = true ↔
    (∃ s, v = .str s ∧ Text.hasInk s = true) ∨
      ∃ es, v.mapEntries? = some es ∧ MetricsConsumer.entryFaults es = [] := by
  unfold metricsConsumerProblem
  split
  · rename_i s
    cases hs : Text.hasInk s <;> simp [hs, mapEntries?]
  · rename_i hnot
    have hno (s : String) : v ≠ .str s := hnot s
    split
    · simp_all
    · rename_i es hes
      simp [hes, hno]

theorem isLeaf_of_isIdentifier {v : Value} (h : isIdentifier v = true) : v.isLeaf = true :=
  isLeaf_of_accepts (s := identifier) rfl h

/-- Freezing makes the verdict one on frozen parts alone. -/
theorem acceptsFrozen_freeze {s : Shape} {v : Value} (h : s.accepts v = true) : s.acceptsFrozen v.freeze = true := by
  induction s using Shape.induction generalizing v with
  | scalar s hs =>
    rw [freeze_of_isLeaf (isLeaf_of_accepts hs h), acceptsFrozen_of_isScalar hs]
    exact h
  | map =>
    obtain ⟨es, hes⟩ := Option.isSome_iff_exists.mp h
    rw [freeze_of_mapEntries? hes]
    rfl
  | serializationEntry =>
    rcases isSerializationEntry_iff.mp h with ⟨s, rfl, hs⟩ | ⟨c, s, hes, hc, hs⟩
    · exact h
    · rw [freeze_of_mapEntries? hes]
      have hfrozen : mapValues freeze [(c, s)] = [(c, s)] := by
        simp [mapValues, freeze_of_isLeaf (isLeaf_of_isIdentifier hs)]
      rw [hfrozen]
      exact (isSerializationEntry_iff (v := .frozenMap [(c, s)])).mpr (Or.inr ⟨c, s, rfl, hc, hs⟩)
  | metricsConsumerEntry =>
    rcases metricsConsumerProblem_eq_none_iff.mp h with ⟨s, rfl, hs⟩ | ⟨es, hes, hfaults⟩
    · exact h
    · rw [freeze_of_mapEntries? hes]
      refine metricsConsumerProblem_eq_none_iff.mpr (Or.inr ⟨_, rfl, ?_⟩)
      refine MetricsConsumer.entryFaults_eq_nil_of_pointwise (R := fun v w => w = v.freeze) ?_ ?_ hfaults
      · rintro v w hv rfl
        exact freeze_of_isLeaf hv
      · exact Entries.pointwise_mapValues fun _ _ => rfl
  | listOf s ih =>
    rw [accepts] at h
    split at h
    · rename_i xs hxs
      rw [freeze_of_items? hxs]
      have hall : ∀ x ∈ xs, s.acceptsFrozen x.freeze = true := fun x hx => ih (List.all_eq_true.mp h x hx)
      simpa [acceptsFrozen] using hall
    · cases h
  | oneOf ss ih =>
    obtain ⟨s, hs, h⟩ := anyAccepts_iff.mp h
    exact anyAcceptsFrozen_iff.mpr ⟨s, hs, ih s hs h⟩

theorem acceptsFrozen_serializationEntry (hR : KeepsFrozen R) {v w : Value} (hr : R v w)
    (h : serializationEntry.acceptsFrozen v = true) : serializationEntry.acceptsFrozen w = true := by
  obtain ⟨hfixed, hentry⟩ := (Bool.and_eq_true _ _).mp h
  cases v with
  | str s => rwa [hR.leaf _ w rfl hr]
  | frozenMap es =>
    obtain ⟨fs, rfl, hfs⟩ := hR.frozenMap es w hr
    -- The only entry has a text under its key, which stays what it is.
    rcases isSerializationEntry_iff.mp hentry with ⟨s, hs, -⟩ | ⟨c, s, hes, hc, hs⟩
    · cases hs
    · cases hes
      cases hfs with
      | @cons _ f _ fs hef hrest =>
        cases hrest
        obtain ⟨k, x⟩ := f
        obtain ⟨rfl, hx⟩ : c = k ∧ R s x := hef
        rw [hR.leaf s x (isLeaf_of_isIdentifier hs) hx]
        exact h
  | _ => cases hfixed

theorem acceptsFrozen_metricsConsumerEntry (hR : KeepsFrozen R) {v w : Value} (hr : R v w)
    (h : metricsConsumerEntry.acceptsFrozen v = true) : metricsConsumerEntry.acceptsFrozen w = true := by
  obtain ⟨hfixed, hentry⟩ := (Bool.and_eq_true _ _).mp h
  cases v with
  | str s => rwa [hR.leaf _ w rfl hr]
  | frozenMap es =>
    obtain ⟨fs, rfl, hfs⟩ := hR.frozenMap es w hr
    rcases metricsConsumerProblem_eq_none_iff.mp hentry with ⟨s, hs, -⟩ | ⟨es', hes, hfaults⟩
    · cases hs
    · cases hes
      refine metricsConsumerProblem_eq_none_iff.mpr (Or.inr ⟨fs, rfl, ?_⟩)
      exact MetricsConsumer.entryFaults_eq_nil_of_pointwise hR.leaf hfs hfaults
  | _ => cases hfixed

theorem acceptsFrozen_listOf (hR : KeepsFrozen R) {s : Shape} {v w : Value} (hr : R v w)
    (hs : ∀ x y, R x y → s.acceptsFrozen x = true → s.acceptsFrozen y = true)
    (h : (listOf s).acceptsFrozen v = true) : (listOf s).acceptsFrozen w = true := by
  cases v with
  | frozenList xs =>
    obtain ⟨ys, rfl, hys⟩ := hR.frozenList xs w hr
    have hxs : ∀ x ∈ xs, s.acceptsFrozen x = true := by simpa [acceptsFrozen] using h
    have hall : ∀ y ∈ ys, s.acceptsFrozen y = true := by
      clear h hr
      induction hys with
      | nil => simp
      | cons hxy _ ih =>
        obtain ⟨hfirst, hrest⟩ := List.forall_mem_cons.mp hxs
        exact List.forall_mem_cons.mpr ⟨hs _ _ hxy hfirst, ih hrest⟩
    simpa [acceptsFrozen] using hall
  | _ => cases h

/-- The verdict on frozen parts stands whatever becomes of the others. -/
theorem acceptsFrozen_of_keepsFrozen (hR : KeepsFrozen R) {s : Shape} {v w : Value} (hr : R v w)
    (h : s.acceptsFrozen v = true) : s.acceptsFrozen w = true := by
  induction s using Shape.induction generalizing v w with
  | scalar s hs =>
    rw [acceptsFrozen_of_isScalar hs] at h ⊢
    rwa [hR.leaf v w (isLeaf_of_accepts hs h) hr]
  | map =>
    cases v with
    | frozenMap es =>
      obtain ⟨fs, rfl, -⟩ := hR.frozenMap es w hr
      rfl
    | _ => cases h
  | serializationEntry => exact acceptsFrozen_serializationEntry hR hr h
  | metricsConsumerEntry => exact acceptsFrozen_metricsConsumerEntry hR hr h
  | listOf s ih => exact acceptsFrozen_listOf hR hr (fun _ _ hxy hx => ih hxy hx) h
  | oneOf ss ih =>
    obtain ⟨s, hs, h⟩ := anyAcceptsFrozen_iff.mp h
    exact anyAcceptsFrozen_iff.mpr ⟨s, hs, ih s hs hr h⟩

end Shape
namespace Registry

variable {r : Registry} {key v w : Value}

/-- The registry allows the value for its frozen parts alone. -/
def AllowsFrozen (r : Registry) (key v : Value) : Prop :=
  ∀ s, r.shape? key = some s → v = .null ∨ s.acceptsFrozen v = true

theorem allows_iff : r.allows key v = true ↔ ∀ s, r.shape? key = some s → v = .null ∨ s.accepts v = true := by
  unfold allows
  split
  · simp_all
  · simp
  · rename_i s hs hnull
    simp [hs, imp_false.mp hnull]

theorem allows_of_allowsFrozen (h : r.AllowsFrozen key v) : r.allows key v = true :=
  allows_iff.mpr fun s hs => (h s hs).imp_right Shape.accepts_of_acceptsFrozen

theorem allowsFrozen_freeze (h : r.allows key v = true) : r.AllowsFrozen key v.freeze := by
  intro s hs
  rcases allows_iff.mp h s hs with rfl | h
  · exact Or.inl rfl
  · exact Or.inr (Shape.acceptsFrozen_freeze h)

theorem allowsFrozen_of_keepsFrozen {R : Value → Value → Prop} (hR : KeepsFrozen R) (hr : R v w)
    (h : r.AllowsFrozen key v) : r.AllowsFrozen key w := by
  intro s hs
  rcases h s hs with rfl | h
  · exact Or.inl (hR.leaf _ w rfl hr)
  · exact Or.inr (Shape.acceptsFrozen_of_keepsFrozen hR hr h)

theorem validate_eq_ok_none_iff : r.validate key v = .ok none ↔ r.allows key v = true := by
  unfold validate violation?
  cases ha : r.allows key v with
  | true => simp
  | false =>
    obtain ⟨s, hs⟩ : ∃ s, r.shape? key = some s := by
      cases hs : r.shape? key with
      | none => simp [allows, hs] at ha
      | some s => exact ⟨s, rfl⟩
    simp [hs, Except.map]
    split <;> simp

/-- An inspection finds nothing exactly if every entry is allowed. -/
theorem inspect_eq_nil_iff {es : Entries} : r.inspect es = ⟨[], none⟩ ↔ ∀ e ∈ es, r.allows e.1 e.2 = true := by
  induction es with
  | nil => simp [inspect]
  | cons e es ih =>
    rw [List.forall_mem_cons, ← ih, ← validate_eq_ok_none_iff, inspect]
    split <;> simp_all

end Registry
end TopologyConfig
