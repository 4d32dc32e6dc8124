import TopologyConfig.Proofs.ConfigMap.Appending
import TopologyConfig.Proofs.Schema.Frozen
import TopologyConfig.Proofs.Session.Failure
import TopologyConfig.Proofs.Text.Blank

/-!
Explanations of rejected entries. The composite shapes accept what a grammar of entries says, and explain everything
else by a field: in a record it is the first field at fault, the three fields in their order and then the other keys in
the record's.
-/
namespace TopologyConfig

open Value

namespace Value

/-- A text with a character that is not blank. -/
def IsName (v : Value) : Prop := ∃ s, v = .str s ∧ ∃ c ∈ s.toList, Text.isBlank c = false

/-- A registration for serialization: a name, or a map of one name to another. -/
def IsSerialization (v : Value) : Prop :=
  v.IsName ∨ ∃ k w, v.mapEntries? = some [(k, w)] ∧ k.IsName ∧ w.IsName

end Value

theorem Shape.isIdentifier_iff {v : Value} : Shape.isIdentifier v = true ↔ v.IsName := by
  cases v with
  | str s => simp [Shape.isIdentifier, Value.IsName, Text.hasInk_iff]
  | _ => simp [Shape.isIdentifier, Value.IsName]

namespace MetricsConsumer

variable {es : Entries} {k : Value} {found : Option Value} {f : Fault}

/-- The keys of a record. -/
def fields : List Value := [.str "class", .str "parallelism.hint", .str "argument"]

def NamesClass (es : Entries) : Prop := ∃ v, Entries.get? es (.str "class") = some v ∧ v.IsName

/-- The record has a number of executors, and that number is positive. -/
def CountsExecutors (es : Entries) : Prop :=
  ∃ n : Int, Entries.get? es (.str "parallelism.hint") = some (.int n) ∧ 1 ≤ n

def HasArgument (es : Entries) : Prop := ∃ v, Entries.get? es (.str "argument") = some v

/-- The entries are those of a record: its three keys and no others, of which the argument may be anything. -/
structure IsRecord (es : Entries) : Prop where
  keys : ∀ k, k ∈ Entries.keys es ↔ k ∈ fields
  className : NamesClass es
  executors : CountsExecutors es

/-- The field is the first one at fault: the three fields in their order, then the other keys in the record's. -/
inductive FirstFault (es : Entries) : String → Prop where
  | className (h : ¬ NamesClass es) : FirstFault es "class"
  | executors (hclass : NamesClass es) (h : ¬ CountsExecutors es) : FirstFault es "parallelism.hint"
  | argument (hclass : NamesClass es) (hhint : CountsExecutors es) (h : ¬ HasArgument es) : FirstFault es "argument"
  | extra (before after : Entries) (name : String) (v : Value) (hclass : NamesClass es) (hhint : CountsExecutors es)
      (hargument : HasArgument es) (hes : es = before ++ (.str name, v) :: after)
      (hbefore : ∀ e ∈ before, e.1 ∈ fields) (h : .str name ∉ fields) : FirstFault es name

theorem classFault?_eq_none_iff : classFault? found = none ↔ ∃ v, found = some v ∧ v.IsName := by
  cases found with
  | none => simp [classFault?]
  | some v =>
    cases v with
    | str s =>
      have hempty : s.isEmpty = true → Text.hasInk s = false := by
        intro h
        simp [String.isEmpty_iff.mp h, Text.hasInk]
      have hname : (Value.str s).IsName ↔ Text.hasInk s = true := (Shape.isIdentifier_iff (v := .str s)).symm
      cases h : s.isEmpty <;> cases hink : Text.hasInk s <;> simp_all [classFault?]
    | _ => simp [classFault?, Value.IsName]

theorem hintFault?_eq_none_iff : hintFault? found = none ↔ ∃ n : Int, found = some (.int n) ∧ 1 ≤ n := by
  cases found with
  | none => simp [hintFault?]
  | some v =>
    cases v with
    | int n =>
      simp [hintFault?]
    | _ => simp [hintFault?]

theorem argumentFault?_eq_none_iff : argumentFault? found = none ↔ ∃ v, found = some v := by
  cases found <;> simp [argumentFault?]

theorem extraFault?_eq_none_iff : extraFault? k = none ↔ k ∈ fields := by
  cases k with
  | str s =>
    simp [extraFault?, fields, fieldNames]
    tauto
  | _ => simp [extraFault?, fields]

/-- A record has no fault exactly if it is one. -/
theorem entryFaults_eq_nil_iff_isRecord : entryFaults es = [] ↔ IsRecord es := by
  rw [entryFaults_eq_nil_iff, classFault?_eq_none_iff, hintFault?_eq_none_iff, argumentFault?_eq_none_iff]
  simp only [extraFault?_eq_none_iff]
  constructor
  · rintro ⟨hclass, hhint, hargument, hextra⟩
    -- A key that finds something is there itself: its like among the keys can only be a field.
    have hpresent (name : String) (hfound : (Entries.get? es (.str name)).isSome = true) :
        .str name ∈ Entries.keys es := by
      obtain ⟨k, hk, hsame⟩ := Entries.isSome_get?_iff.mp hfound
      have hfield := hextra k hk
      have hbare := same_str_iff.mp hsame
      simp only [fields, List.mem_cons, List.not_mem_nil, or_false] at hfield
      rcases hfield with rfl | rfl | rfl <;> (cases hbare; exact hk)
    refine ⟨fun k => ⟨hextra k, fun hk => ?_⟩, hclass, hhint⟩
    obtain ⟨v, hv, -⟩ := hclass
    obtain ⟨n, hn, -⟩ := hhint
    obtain ⟨w, hw⟩ := hargument
    simp only [fields, List.mem_cons, List.not_mem_nil, or_false] at hk
    rcases hk with rfl | rfl | rfl
    · exact hpresent _ (by simp [hv])
    · exact hpresent _ (by simp [hn])
    · exact hpresent _ (by simp [hw])
  · rintro ⟨hkeys, hclass, hhint⟩
    have hargument : (Entries.get? es (.str "argument")).isSome = true :=
      Entries.isSome_get?_iff.mpr ⟨_, (hkeys (.str "argument")).mpr (by simp [fields]), by simp [same_str_str]⟩
    exact ⟨hclass, hhint, Option.isSome_iff_exists.mp hargument, fun k hk => (hkeys k).mp hk⟩

theorem head?_fieldFault (name : String) (fault? : Option Value → Option FaultCause) :
    (fieldFault name fault? es).head? = (fault? (Entries.get? es (.str name))).map (Fault.mk [name]) := by
  rw [fieldFault]
  cases fault? (Entries.get? es (.str name)) <;> rfl

theorem field_faultProblem (name : String) (cause : FaultCause) :
    (Shape.faultProblem ⟨[name], cause⟩).field = name := by
  simp [Shape.faultProblem]

/-- The first fault that is found names the first field at fault. -/
theorem firstFault_of_head? (hkeys : es.HasTextKeys) (h : (entryFaults es).head? = some f) :
    FirstFault es (Shape.faultProblem f).field := by
  simp only [entryFaults, List.head?_append, head?_fieldFault, List.head?_filterMap] at h
  cases hclass : classFault? (Entries.get? es (.str "class")) with
  | some cause =>
    obtain rfl : Fault.mk ["class"] cause = f := by simpa [hclass] using h
    rw [field_faultProblem]
    exact .className fun hnames => by simp [classFault?_eq_none_iff.mpr hnames] at hclass
  | none =>
    have hnames : NamesClass es := classFault?_eq_none_iff.mp hclass
    cases hhint : hintFault? (Entries.get? es (.str "parallelism.hint")) with
    | some cause =>
      obtain rfl : Fault.mk ["parallelism.hint"] cause = f := by simpa [hclass, hhint] using h
      rw [field_faultProblem]
      exact .executors hnames fun hcounts => by simp [hintFault?_eq_none_iff.mpr hcounts] at hhint
    | none =>
      have hcounts : CountsExecutors es := hintFault?_eq_none_iff.mp hhint
      cases hargument : argumentFault? (Entries.get? es (.str "argument")) with
      | some cause =>
        obtain rfl : Fault.mk ["argument"] cause = f := by simpa [hclass, hhint, hargument] using h
        rw [field_faultProblem]
        exact .argument hnames hcounts fun hhas => by simp [argumentFault?_eq_none_iff.mpr hhas] at hargument
      | none =>
        have hextra : es.findSome? (fun e => extraFault? e.1) = some f := by simpa [hclass, hhint, hargument] using h
        obtain ⟨before, ⟨k, v⟩, after, hes, hfault, hbefore⟩ := List.findSome?_eq_some_iff.mp hextra
        obtain ⟨name, rfl⟩ := exists_str_of_isString (hkeys (k, v) (by simp [hes]))
        have hnot : .str name ∉ fields := fun hin => by simp [extraFault?_eq_none_iff.mpr hin] at hfault
        obtain rfl : Fault.mk [name] .unexpected = f := by
          rw [extraFault?] at hfault
          split at hfault
          · cases hfault
          · exact Option.some.inj hfault
        rw [field_faultProblem]
        exact .extra before after name v hnames hcounts (argumentFault?_eq_none_iff.mp hargument) hes
          (fun e he => extraFault?_eq_none_iff.mp (hbefore e he)) hnot

end MetricsConsumer

/-- A registration of a metrics consumer: a name, or a record. -/
def Value.IsConsumer (v : Value) : Prop :=
  v.IsName ∨ ∃ es, v.mapEntries? = some es ∧ MetricsConsumer.IsRecord es

namespace Shape

variable {s : Shape} {v : Value}

/-- The shapes of composite entries. -/
def isComposite : Shape → Bool
  | serializationEntry | metricsConsumerEntry => true
  | _ => false

theorem accepts_serializationEntry_iff : serializationEntry.accepts v = true ↔ v.IsSerialization := by
  simp only [accepts, isSerializationEntry_iff, isIdentifier_iff, Text.hasInk_iff]
  rfl

theorem accepts_metricsConsumerEntry_iff : metricsConsumerEntry.accepts v = true ↔ v.IsConsumer := by
  simp only [accepts, metricsConsumerProblem_eq_none_iff, Text.hasInk_iff,
    MetricsConsumer.entryFaults_eq_nil_iff_isRecord]
  rfl

/-- A text is always explained; the explanation is asked for a rejected one only. -/
theorem isSome_serializationProblem (h : isSerializationEntry v = false) : (serializationProblem v).isSome = true := by
  unfold isSerializationEntry at h
  split at h
  · rfl
  · cases hes : v.mapEntries? with
    | some es =>
      rw [hes] at h
      simpa [Option.isNone_eq_false_iff] using h
    | none =>
      next hnot =>
      unfold serializationProblem
      split
      · rfl
      · simp [hes]

/-- A composite shape explains exactly what it rejects. -/
theorem problem?_eq_none_iff (hs : s.isComposite = true) : s.problem? v = none ↔ s.accepts v = true := by
  cases h : s.accepts v with
  | true => simp [problem?, h]
  | false =>
    have hsome : (s.problem? v).isSome = true := by
      cases s with
      | serializationEntry =>
        rw [problem?, if_neg (by simp [h])]
        exact isSome_serializationProblem (by simpa [accepts] using h)
      | metricsConsumerEntry =>
        rw [problem?, if_neg (by simp [h])]
        simpa [accepts] using h
      | _ => cases hs
    simp [Option.isSome_iff_ne_none.mp hsome]

/-- The explanation of a rejected record names the first field at fault. -/
theorem firstFault_of_problem? {es : Entries} (hes : v.mapEntries? = some es) (hkeys : es.HasTextKeys)
    (h : metricsConsumerEntry.accepts v = false) :
    ∃ p, metricsConsumerEntry.problem? v = some p ∧ MetricsConsumer.FirstFault es p.field := by
  have hnot (s : String) : v ≠ .str s := fun he => by simp [he, mapEntries?] at hes
  have hproblem : metricsConsumerProblem v = (MetricsConsumer.entryFaults es).head?.map faultProblem := by
    unfold metricsConsumerProblem
    split
    · exact absurd rfl (hnot _)
    · rw [hes]
  have hrejected : (metricsConsumerProblem v).isNone = false := by simpa [accepts] using h
  obtain ⟨f, hf⟩ : ∃ f, (MetricsConsumer.entryFaults es).head? = some f := by
    rw [hproblem] at hrejected
    exact Option.isSome_iff_exists.mp (by simpa using hrejected)
  refine ⟨faultProblem f, ?_, MetricsConsumer.firstFault_of_head? hkeys hf⟩
  simp [problem?, h, hproblem, hf]

end Shape

namespace ConfigMap

variable {c : ConfigMap} {key v : Value} {s : Shape}

/-- The entry is refused with the explanation of its element shape. -/
def RefusesAsMalformed (c : ConfigMap) (key v : Value) (s : Shape) : Prop :=
  ∃ p, s.problem? v = some p ∧
    c.append key v = .refused c (.violation { key := key, expected := s.description, value := v, problem := some p })

theorem exists_str_of_element? {r : Registry} (h : r.element? key = some s) : ∃ name, key = .str name := by
  cases key with
  | str name => exact ⟨name, rfl⟩
  | _ => cases h

/-- A rejected entry is refused with its explanation as far as the entry can be written. -/
theorem append_of_not_accepts (ho : c.isSealed = false) (hs : c.registry.element? key = some s)
    (hc : s.isComposite = true) (h : s.accepts v = false) :
    ∃ p, s.problem? v = some p ∧ c.append key v = .refused c
      (if v.isWritable then
        .violation { key := key, expected := s.description, value := v, problem := some p }
      else .numeral .tooLongToWrite) := by
  obtain ⟨name, rfl⟩ := exists_str_of_element? hs
  obtain ⟨p, hp⟩ : ∃ p, s.problem? v = some p := by
    refine Option.ne_none_iff_exists'.mp fun hnone => ?_
    simp [(Shape.problem?_eq_none_iff hc).mp hnone] at h
  refine ⟨p, hp, ?_⟩
  have hkey : hashable (.str name) = .ok () := rfl
  have hviolation : entryViolation? c.registry (.str name) v =
      some { key := .str name, expected := s.description, value := v, problem := some p } := by
    simp [entryViolation?, hs, h, hp]
  have hwritable : (Value.str name).isWritable = true := rfl
  cases hw : v.isWritable <;>
    simp [append, ho, hkey, hviolation, Violation.checked, Violation.isWritable, hw, hwritable]

/-- The entries of a record with several faults. -/
def faultyFields : Entries := [(.str "note", .null), (.str "parallelism.hint", .int 0), (.str "class", .str " ")]

def faultyRecord : Value := .map faultyFields

/-- The composite shapes accept what the grammar of entries says and explain exactly what they reject, a record by its
first field at fault. Appending takes an accepted entry and refuses a rejected one with its explanation, exactly if the
message, which shows the entry, can be written. -/
theorem composite_entries_are_explained (v : Value) :
    (Shape.serializationEntry.accepts v = true ↔ v.IsSerialization) ∧
    (Shape.metricsConsumerEntry.accepts v = true ↔ v.IsConsumer) ∧
    (∀ es, v.mapEntries? = some es → es.HasTextKeys → Shape.metricsConsumerEntry.accepts v = false →
      ∃ p, Shape.metricsConsumerEntry.problem? v = some p ∧ MetricsConsumer.FirstFault es p.field) ∧
    ∀ s : Shape, s = .serializationEntry ∨ s = .metricsConsumerEntry →
      (s.problem? v = none ↔ s.accepts v = true) ∧
      ∀ (c : ConfigMap) (key : Value), c.isSealed = false → c.registry.element? key = some s →
        (s.accepts v = true → (c.append key v).outcome.result = .ok ()) ∧
        (s.accepts v = false →
          (c.RefusesAsMalformed key v s ↔ v.isWritable = true) ∧
          (v.isWritable = false → c.append key v = .refused c (.numeral .tooLongToWrite))) := by
  refine ⟨Shape.accepts_serializationEntry_iff, Shape.accepts_metricsConsumerEntry_iff,
    fun es => Shape.firstFault_of_problem?, fun s hs => ?_⟩
  have hc : s.isComposite = true := by rcases hs with rfl | rfl <;> rfl
  refine ⟨Shape.problem?_eq_none_iff hc, fun c key ho hkey => ⟨fun h => ?_, fun h => ?_⟩⟩
  · obtain ⟨name, rfl⟩ := exists_str_of_element? hkey
    refine (append_of_accepts ho fun s' hs' => ?_).1
    obtain rfl : s = s' := Option.some.inj (hkey.symm.trans hs')
    exact h
  · obtain ⟨p, hp, happend⟩ := append_of_not_accepts ho hkey hc h
    cases hw : v.isWritable with
    | true =>
      refine ⟨⟨fun _ => rfl, fun _ => ⟨p, hp, ?_⟩⟩, nofun⟩
      simpa [hw] using happend
    | false =>
      have hlong : c.append key v = .refused c (.numeral .tooLongToWrite) := by simpa [hw] using happend
      refine ⟨⟨?_, nofun⟩, fun _ => hlong⟩
      rintro ⟨q, -, hrefused⟩
      rw [hlong] at hrefused
      cases hrefused

/-- A record with a blank class, no executors and a key too many is refused for its class, whatever stands first. -/
theorem blank_class_is_named_first :
    Shape.metricsConsumerEntry.accepts faultyRecord = false ∧
    (∃ p, Shape.metricsConsumerEntry.problem? faultyRecord = some p ∧
      MetricsConsumer.FirstFault faultyFields p.field) ∧
    (empty Registry.standard).RefusesAsMalformed (.str "topology.metrics.consumer.register") faultyRecord
      .metricsConsumerEntry := by
  have hrejected : Shape.metricsConsumerEntry.accepts faultyRecord = false := by
    rw [Bool.eq_false_iff, Ne, Shape.accepts_metricsConsumerEntry_iff]
    rintro (⟨s, hs, -⟩ | ⟨es, hes, hrecord⟩)
    · cases hs
    · cases hes
      have hnote := (hrecord.keys (.str "note")).mp (by simp [Entries.keys, faultyFields])
      simp [MetricsConsumer.fields] at hnote
  have hkey : Registry.standard.element? (.str "topology.metrics.consumer.register") = some .metricsConsumerEntry := rfl
  have hwritable : faultyRecord.isWritable = true := by decide +kernel
  obtain ⟨-, -, hfields, hshapes⟩ := composite_entries_are_explained faultyRecord
  obtain ⟨-, happend⟩ := hshapes .metricsConsumerEntry (.inr rfl)
  refine ⟨hrejected, hfields faultyFields rfl ?_ hrejected,
    ((happend (empty _) _ rfl hkey).2 hrejected).1.mpr hwritable⟩
  simp [Entries.HasTextKeys, faultyFields, isString]

/-- A rejected number with too many digits for a message is refused, but not as malformed. -/
theorem long_number_is_refused_without_explanation :
    Registry.standard.element? (.str "topology.kryo.register") = some .serializationEntry ∧
    Shape.serializationEntry.accepts (.int Session.longNumber) = false ∧
    (∃ p, Shape.serializationEntry.problem? (.int Session.longNumber) = some p) ∧
    ¬ (empty Registry.standard).RefusesAsMalformed (.str "topology.kryo.register") (.int Session.longNumber)
      .serializationEntry ∧
    ((empty Registry.standard).append (.str "topology.kryo.register") (.int Session.longNumber)).outcome.result =
      .error (.numeral .tooLongToWrite) := by
  have hkey : Registry.standard.element? (.str "topology.kryo.register") = some .serializationEntry := rfl
  have hrejected : Shape.serializationEntry.accepts (.int Session.longNumber) = false := rfl
  obtain ⟨p, hp, happend⟩ := append_of_not_accepts (c := empty Registry.standard) rfl hkey rfl hrejected
  rw [Session.isWritable_longNumber] at happend
  refine ⟨hkey, hrejected, ⟨p, hp⟩, ?_, by rw [happend]; rfl⟩
  rintro ⟨q, -, hrefused⟩
  rw [happend] at hrefused
  cases hrefused

end ConfigMap
end TopologyConfig
