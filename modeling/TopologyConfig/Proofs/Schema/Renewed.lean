import TopologyConfig.ConfigMap.Transfer
import TopologyConfig.Proofs.Schema.Numbers
import TopologyConfig.Proofs.Value.Forms

/-!
Values on the other side of a hand-over. Only floats that are no number are new there, in keys and sets too, so that a
plain value stays plain and a shape that accepts a value accepts the new one.
-/
namespace TopologyConfig

open Value

namespace Value

variable {v : Value} {n : Nat} {xs : List Value} {es : Entries}

/-- The leaves of a plain value, also those in keys and in sets, have the property. -/
inductive MadeOf (P : Value → Prop) : Value → Prop where
  | leaf (v : Value) (hl : v.isLeaf = true) (h : P v) : MadeOf P v
  | list (xs : List Value) (h : ∀ x ∈ xs, MadeOf P x) : MadeOf P (.list xs)
  | tuple (xs : List Value) (h : ∀ x ∈ xs, MadeOf P x) : MadeOf P (.tuple xs)
  | set (xs : List Value) (h : ∀ x ∈ xs, MadeOf P x) : MadeOf P (.set xs)
  | map (es : Entries) (hk : ∀ e ∈ es, MadeOf P e.1) (hv : ∀ e ∈ es, MadeOf P e.2) : MadeOf P (.map es)

/-- The value is neither a class nor an instance of one. -/
def isPortable : Value → Bool
  | classRef _ _ | object _ => false
  | _ => true

/-- The entries of a map on the other side. -/
def renewedEntry (n : Nat) (e : Value × Value) : Value × Value := (e.1.renewed n, e.2.renewed n)

theorem renewedItems_eq_map (n : Nat) (xs : List Value) : renewedItems n xs = xs.map (renewed n) := by
  induction xs with
  | nil => rfl
  | cons x xs ih => simp [renewedItems, ih]

theorem renewedEntries_eq_map (n : Nat) (es : Entries) : renewedEntries n es = es.map (renewedEntry n) := by
  induction es with
  | nil => rfl
  | cons e es ih => simp [renewedEntries, renewedEntry, ih]

/-- A leaf is renewed only if it is a float. -/
theorem renewed_of_isLeaf (n : Nat) (h : v.isLeaf = true) :
    v.renewed n = v ∨ ∃ x, v = .float x ∧ v.renewed n = .float (renewedFloat n x) := by
  cases v <;> first
    | exact absurd h Bool.false_ne_true
    | exact .inl rfl
    | exact .inr ⟨_, rfl, rfl⟩

theorem isLeaf_renewed (n : Nat) (h : v.isLeaf = true) : (v.renewed n).isLeaf = true := by
  rcases renewed_of_isLeaf n h with hv | ⟨x, -, hv⟩ <;> rw [hv]
  · exact h
  · rfl

/-- What is handed over is plain before and after. -/
theorem thaw_renewed_thaw (n : Nat) (v : Value) : (v.thaw.renewed n).thaw = v.thaw.renewed n := by
  have hitems {xs : List Value} (ih : ∀ x ∈ xs, (x.thaw.renewed n).thaw = x.thaw.renewed n) :
      ((Value.list (xs.map thaw)).renewed n).thaw = (Value.list (xs.map thaw)).renewed n := by
    simpa [renewed, renewedItems_eq_map] using ih
  have hentries {es : Entries} (ih : ∀ e ∈ es, (e.2.thaw.renewed n).thaw = e.2.thaw.renewed n) :
      ((Value.map (mapValues thaw es)).renewed n).thaw = (Value.map (mapValues thaw es)).renewed n := by
    simpa [renewed, renewedEntries_eq_map, renewedEntry, mapValues] using fun k v hmem => ih (k, v) hmem
  induction v using Value.induction with
  | leaf v hl => rw [thaw_of_isLeaf hl, thaw_of_isLeaf (isLeaf_renewed n hl)]
  | list xs ih => exact thaw_list xs ▸ hitems ih
  | frozenList xs ih => exact thaw_frozenList xs ▸ hitems ih
  | tuple xs ih => exact thaw_tuple xs ▸ hitems ih
  | set xs _ => simp [renewed]
  | map es ih => exact thaw_map es ▸ hentries ih
  | frozenMap es ih => exact thaw_frozenMap es ▸ hentries ih
  | view es ih => exact thaw_view es ▸ hentries ih
  | config m b es ih => exact thaw_config m b es ▸ hentries ih
  | labelled l v ih => rwa [thaw_labelled]

theorem itemsTransferError?_eq_none (h : ∀ x ∈ xs, x.transferError? = none) : itemsTransferError? xs = none := by
  induction xs with
  | nil => rfl
  | cons x xs ih =>
    obtain ⟨hfirst, hrest⟩ := List.forall_mem_cons.mp h
    rw [itemsTransferError?, hfirst, ih hrest, Option.none_or]

theorem entriesTransferError?_eq_none (hk : ∀ e ∈ es, e.1.transferError? = none)
    (hv : ∀ e ∈ es, e.2.transferError? = none) : entriesTransferError? es = none := by
  induction es with
  | nil => rfl
  | cons e es ih =>
    obtain ⟨hkey, hkeys⟩ := List.forall_mem_cons.mp hk
    obtain ⟨hvalue, hvalues⟩ := List.forall_mem_cons.mp hv
    rw [entriesTransferError?, hkey, hvalue, ih hkeys hvalues]
    rfl

theorem MadeOf.transferError? (h : MadeOf (fun v => v.isPortable = true) v) : v.transferError? = none := by
  induction h with
  | leaf v hl hd => cases v <;> first | rfl | exact absurd hl Bool.false_ne_true | exact absurd hd Bool.false_ne_true
  | list xs _ ih | tuple xs _ ih | set xs _ ih => exact itemsTransferError?_eq_none ih
  | map es _ _ ihk ihv => exact entriesTransferError?_eq_none ihk ihv

/-- Where every float is a number, the value is the same on the other side. -/
theorem MadeOf.renewed_eq (h : MadeOf (fun v => v.isNaN = false) v) (n : Nat) : v.renewed n = v := by
  induction h with
  | leaf v hl hn =>
    rcases renewed_of_isLeaf n hl with hv | ⟨x, rfl, hv⟩
    · exact hv
    · have hx : x.isNaN = false := hn
      simp [hv, renewedFloat, hx]
  | list xs _ ih | tuple xs _ ih | set xs _ ih =>
    rw [renewed, renewedItems_eq_map, List.map_congr_left ih, List.map_id']
  | map es _ _ ihk ihv =>
    have hentry : ∀ e ∈ es, renewedEntry n e = e := fun e he => by rw [renewedEntry, ihk e he, ihv e he]
    rw [renewed, renewedEntries_eq_map, List.map_congr_left hentry, List.map_id']

theorem items?_renewed (n : Nat) (v : Value) : (v.renewed n).items? = v.items?.map (List.map (renewed n)) := by
  induction v using Value.induction with
  | leaf v hl => cases v <;> first | rfl | exact absurd hl Bool.false_ne_true
  | labelled l v ih => rwa [renewed, items?]
  | _ => simp [renewed, renewedItems_eq_map, items?]

theorem mapEntries?_renewed (n : Nat) (v : Value) :
    (v.renewed n).mapEntries? = v.mapEntries?.map (List.map (renewedEntry n)) := by
  induction v using Value.induction with
  | leaf v hl => cases v <;> first | rfl | exact absurd hl Bool.false_ne_true
  | labelled l v ih => rwa [renewed, mapEntries?]
  | _ => simp [renewed, renewedEntries_eq_map, mapEntries?]

theorem renewed_of_isString (n : Nat) (h : v.isString = true) : v.renewed n = v := by
  obtain ⟨s, rfl⟩ := exists_str_of_isString h
  rfl

/-- Under texts only the values are renewed. -/
theorem map_renewedEntry_of_hasTextKeys (n : Nat) (h : es.HasTextKeys) :
    es.map (renewedEntry n) = mapValues (renewed n) es :=
  List.map_congr_left fun e he => by rw [renewedEntry, renewed_of_isString n (h e he)]

end Value

namespace Shape

theorem isString_of_extraFault? {k : Value} (h : MetricsConsumer.extraFault? k = none) : k.isString = true := by
  cases k <;> first | rfl | cases h

theorem isIdentifier_renewed {v : Value} (n : Nat) (h : isIdentifier v = true) : v.renewed n = v := by
  cases v <;> first | rfl | cases h

theorem accepts_renewed {s : Shape} {v : Value} (n : Nat) (h : s.accepts v = true) :
    s.accepts (v.renewed n) = true := by
  induction s using Shape.induction generalizing v with
  | scalar s hs =>
    rcases renewed_of_isLeaf n (isLeaf_of_accepts hs h) with hv | ⟨x, rfl, hv⟩
    · rwa [hv]
    · rwa [hv, accepts_float_of_isScalar hs _ x]
  | map =>
    rw [accepts] at h ⊢
    rw [mapEntries?_renewed, Option.isSome_map, h]
  | serializationEntry =>
    rcases isSerializationEntry_iff.mp h with ⟨s, rfl, -⟩ | ⟨c, s, hes, hc, hs⟩
    · exact h
    · refine isSerializationEntry_iff.mpr (.inr ⟨c, s, ?_, hc, hs⟩)
      simp [mapEntries?_renewed, hes, renewedEntry, isIdentifier_renewed n hc, isIdentifier_renewed n hs]
  | metricsConsumerEntry =>
    rcases metricsConsumerProblem_eq_none_iff.mp h with ⟨s, rfl, -⟩ | ⟨es, hes, hfaults⟩
    · exact h
    · obtain ⟨-, -, -, hfields⟩ := MetricsConsumer.entryFaults_eq_nil_iff.mp hfaults
      have hkeys : Entries.HasTextKeys es := fun e he =>
        isString_of_extraFault? (hfields e.1 (List.mem_map_of_mem he))
      refine metricsConsumerProblem_eq_none_iff.mpr (.inr ⟨mapValues (renewed n) es, ?_, ?_⟩)
      · rw [mapEntries?_renewed, hes, Option.map_some, map_renewedEntry_of_hasTextKeys n hkeys]
      · refine MetricsConsumer.entryFaults_eq_nil_of_fields (R := fun v w => w = v.renewed n) ?_
          (Entries.pointwise_mapValues fun _ _ => rfl) hfaults
        rintro v w hv rfl
        cases v <;> first | rfl | simp [MetricsConsumer.classFault?, MetricsConsumer.hintFault?] at hv
  | listOf s ih =>
    rw [accepts] at h ⊢
    rw [items?_renewed]
    cases hxs : v.items? with
    | none => simp [hxs] at h
    | some xs =>
      have hall : ∀ x ∈ xs, s.accepts x = true := by simpa [hxs] using h
      simpa using fun x hx => ih (hall x hx)
  | oneOf ss ih =>
    obtain ⟨s, hs, h⟩ := anyAccepts_iff.mp h
    exact anyAccepts_iff.mpr ⟨s, hs, ih s hs h⟩

end Shape

namespace Registry

theorem allows_renewed {r : Registry} {key v : Value} (n : Nat) (h : r.allows key v = true) :
    r.allows key (v.renewed n) = true := by
  refine allows_iff.mpr fun s hs => ?_
  rcases allows_iff.mp h s hs with rfl | h
  · exact .inl rfl
  · exact .inr (Shape.accepts_renewed n h)

end Registry
end TopologyConfig
