import Mathlib.Data.List.TakeWhile
import TopologyConfig.Proofs.ConfigMap.LayerValidity
import TopologyConfig.Proofs.Session.Failure

/-!
Sealing and validating a map. Both find the same violations as long as the messages of all of them can be written;
sealing then fails exactly if there are some, and keeps the plain form of the map.
-/
namespace TopologyConfig

open Value

theorem Entries.get?_str_of_mem {es : Entries} (hd : es.Distinct) {name : String} {v : Value}
    (h : (.str name, v) ∈ es) : Entries.get? es (.str name) = some v := by
  induction es with
  | nil => cases h
  | cons e es ih =>
    obtain ⟨hfirst, hrest⟩ := List.pairwise_cons.mp hd
    rcases List.mem_cons.mp h with rfl | h
    · exact get?_cons_of_same es (by simp [same_str_str])
    · rw [get?_cons_of_not_same es (hfirst _ h)]
      exact ih hrest h

namespace Registry

variable {r : Registry} {es : Entries} {x : Violation}

/-- The violations of some entries in their order, with or without a message. -/
def violations (r : Registry) (es : Entries) : List Violation := es.filterMap (fun e => r.violation? e.1 e.2)

theorem violation?_eq_none_iff {key v : Value} : r.violation? key v = none ↔ r.allows key v = true := by
  rw [← validate_eq_ok_none_iff, validate]
  cases hv : r.violation? key v with
  | none => simp
  | some x =>
    simp only [Violation.checked, reduceCtorEq, false_iff]
    split <;> simp [Except.map]

theorem violations_eq_nil_iff : r.violations es = [] ↔ ∀ e ∈ es, r.allows e.1 e.2 = true := by
  simp [violations, List.filterMap_eq_nil_iff, violation?_eq_none_iff]

/-- A violation is one of an entry under a text that the registry does not allow. -/
theorem exists_of_mem_violations (hx : x ∈ r.violations es) :
    ∃ name v, (.str name, v) ∈ es ∧ x.key = .str name ∧ r.allows (.str name) v = false := by
  obtain ⟨⟨key, v⟩, he, hx⟩ := List.mem_filterMap.mp hx
  unfold violation? at hx
  split at hx
  · cases hx
  · next hallows =>
    obtain ⟨shape, hshape, rfl⟩ := Option.map_eq_some_iff.mp hx
    cases key with
    | str name => exact ⟨name, v, he, rfl, by simpa using hallows⟩
    | _ => cases hshape

theorem mem_violations_of_not_allows {name : String} {v : Value} (he : (.str name, v) ∈ es)
    (hv : r.allows (.str name) v = false) : ∃ x ∈ r.violations es, x.key = .str name := by
  cases hx : r.violation? (.str name) v with
  | none => simp [violation?_eq_none_iff.mp hx] at hv
  | some x =>
    have hmem : x ∈ r.violations es := List.mem_filterMap.mpr ⟨_, he, hx⟩
    unfold violation? at hx
    rw [if_neg (by simp [hv])] at hx
    obtain ⟨shape, -, rfl⟩ := Option.map_eq_some_iff.mp hx
    exact ⟨_, hmem, rfl⟩

/-- An inspection finds the violations up to the first one without a message, and stops there. -/
theorem inspect_eq (r : Registry) (es : Entries) :
    r.inspect es = ⟨(r.violations es).takeWhile Violation.isWritable,
      if (r.violations es).all Violation.isWritable then none else some .tooLongToWrite⟩ := by
  induction es with
  | nil => rfl
  | cons e es ih =>
    rw [inspect, validate, violations, List.filterMap_cons]
    cases hx : r.violation? e.1 e.2 with
    | none => exact ih
    | some x =>
      cases hw : x.isWritable with
      | true =>
        simp only [Violation.checked, hw, if_true, Except.map, ih]
        rw [List.takeWhile_cons_of_pos hw, List.all_cons, hw, Bool.true_and]
        rfl
      | false => simp [Violation.checked, hw, Except.map]

theorem inspect_of_isWritable (h : ∀ x ∈ r.violations es, x.isWritable = true) :
    r.inspect es = ⟨r.violations es, none⟩ := by
  rw [inspect_eq, List.takeWhile_eq_self_iff.mpr h, if_pos (List.all_eq_true.mpr h)]

end Registry

namespace ConfigMap

variable {c d : ConfigMap} {collect : Bool} {xs : List Violation}

/-- The violations of the map, in the order of its keys. -/
def violations (c : ConfigMap) : List Violation := c.registry.violations c.entries

/-- Sealing fails, in either mode, exactly if validating finds violations; it reports all of them or the first one, and
has logged what it reports. -/
structure SealsAsValidated (c : ConfigMap) : Prop where
  fails_iff : ∀ collect, (∃ e, (c.toSealed collect).result = .error e) ↔ ∃ x xs, c.validate = .ok (x :: xs)
  collecting : ∀ e, (c.toSealed true).result = .error e →
    ∃ xs, c.validate = .ok xs ∧ e = .invalid xs ∧ (c.toSealed true).logs = xs.map violationRecord
  first : ∀ e, (c.toSealed false).result = .error e →
    ∃ x xs, c.validate = .ok (x :: xs) ∧ e = .violation x ∧ (c.toSealed false).logs = [violationRecord x]

theorem validate_of_isWritable (h : ∀ x ∈ c.violations, x.isWritable = true) : c.validate = .ok c.violations := by
  rw [validate, Registry.validateAll, Registry.inspect_of_isWritable h]
  rfl

theorem stopped_of_not_isWritable {x : Violation} (hx : x ∈ c.violations) (hw : x.isWritable = false) :
    (c.registry.inspect c.entries).stopped = some .tooLongToWrite := by
  have hall : ¬ c.violations.all Violation.isWritable = true := fun hall => by
    simp [List.all_eq_true.mp hall x hx] at hw
  rw [Registry.inspect_eq]
  exact if_neg hall

theorem validate_of_not_isWritable {x : Violation} (hx : x ∈ c.violations) (hw : x.isWritable = false) :
    c.validate = .error (.numeral .tooLongToWrite) := by
  rw [validate, Registry.validateAll, stopped_of_not_isWritable hx hw]
  rfl

/-- What validating finds is all that there is. -/
theorem eq_violations_of_validate (h : c.validate = .ok xs) : xs = c.violations := by
  by_cases hw : ∀ x ∈ c.violations, x.isWritable = true
  · rw [validate_of_isWritable hw] at h
    exact (Except.ok.inj h).symm
  · push Not at hw
    obtain ⟨x, hx, hw⟩ := hw
    rw [validate_of_not_isWritable hx (by simpa using hw)] at h
    cases h

/-- A map without violations is sealed in either mode. -/
theorem toSealed_of_violations_eq_nil (ho : c.isSealed = false) (h : c.violations = []) (collect : Bool) :
    c.toSealed collect = ⟨.ok c.frozen, [c.sealRecord]⟩ := by
  have hinspect : c.registry.inspect c.entries = ⟨[], none⟩ :=
    Registry.inspect_eq_nil_iff.mpr (Registry.violations_eq_nil_iff.mp h)
  simp [toSealed, ho, hinspect]

theorem toSealed_of_isWritable (ho : c.isSealed = false) (h : ∀ x ∈ c.violations, x.isWritable = true)
    {x : Violation} (hxs : c.violations = x :: xs) (collect : Bool) :
    c.toSealed collect =
      if collect then ⟨.error (.invalid (x :: xs)), (x :: xs).map violationRecord⟩
      else ⟨.error (.violation x), [violationRecord x]⟩ := by
  have hinspect : c.registry.inspect c.entries = ⟨x :: xs, none⟩ := by
    rw [Registry.inspect_of_isWritable h, ← hxs]
    rfl
  simp [toSealed, ho, hinspect]

theorem toSealed_of_not_isWritable (ho : c.isSealed = false) {x : Violation} (hx : x ∈ c.violations)
    (hw : x.isWritable = false) : (c.toSealed true).result = .error (.numeral .tooLongToWrite) := by
  have hstopped := stopped_of_not_isWritable hx hw
  simp only [toSealed, ho, Bool.false_eq_true, if_false, hstopped]
  split <;> simp_all

theorem toSealed_eq_ok_iff (ho : c.isSealed = false) :
    (c.toSealed collect).result = .ok d ↔ c.violations = [] ∧ d = c.frozen := by
  constructor
  · intro h
    obtain ⟨hinspect, hfrozen⟩ := toSealed_eq_ok ho h
    exact ⟨Registry.violations_eq_nil_iff.mpr (Registry.inspect_eq_nil_iff.mp hinspect), hfrozen⟩
  · rintro ⟨hnone, rfl⟩
    rw [toSealed_of_violations_eq_nil ho hnone]

theorem sealsAsValidated_of_isWritable (ho : c.isSealed = false) (h : ∀ x ∈ c.violations, x.isWritable = true) :
    c.SealsAsValidated := by
  have hvalidate := validate_of_isWritable h
  cases hxs : c.violations with
  | nil =>
    have hsealed := toSealed_of_violations_eq_nil ho hxs
    refine ⟨fun collect => ?_, fun e he => ?_, fun e he => ?_⟩
    · simp [hsealed, hvalidate, hxs]
    · simp [hsealed] at he
    · simp [hsealed] at he
  | cons x xs =>
    rw [hxs] at hvalidate
    have hfailed := toSealed_of_isWritable ho h hxs
    refine ⟨fun collect => ?_, fun e he => ?_, fun e he => ?_⟩
    · rw [hfailed collect, hvalidate]
      cases collect <;> simp
    · rw [hfailed true] at he ⊢
      exact ⟨x :: xs, hvalidate, (Except.error.inj he).symm, rfl⟩
    · rw [hfailed false] at he ⊢
      exact ⟨x, xs, hvalidate, (Except.error.inj he).symm, rfl⟩

/-- Without a message for one of the violations, validating fails itself. -/
theorem sealsAsValidated_iff (ho : c.isSealed = false) :
    c.SealsAsValidated ↔ ∀ x ∈ c.violations, x.isWritable = true := by
  refine ⟨fun h x hx => ?_, sealsAsValidated_of_isWritable ho⟩
  by_contra hw
  have hw : x.isWritable = false := by simpa using hw
  obtain ⟨xs, hvalidate, -⟩ := h.collecting _ (toSealed_of_not_isWritable ho hx hw)
  rw [validate_of_not_isWritable hx hw] at hvalidate
  cases hvalidate

/-- The map after values have been set one after the other. -/
def setAll (c : ConfigMap) (fixes : Entries) : Except ConfigError ConfigMap :=
  fixes.foldlM (fun d e => d.set e.1 e.2) c

/-- Setting allowed values under all keys that have violations leaves no violation. -/
theorem exists_setAll {fixes : Entries} (ho : c.isSealed = false) (hd : c.entries.Distinct)
    (hfixes : ∀ e ∈ fixes, e.1.isString = true ∧ c.registry.allows e.1 e.2 = true)
    (hkeys : ∀ x ∈ c.violations, x.key ∈ Entries.keys fixes) :
    ∃ d, c.setAll fixes = .ok d ∧ d.isSealed = false ∧ d.violations = [] := by
  induction fixes generalizing c with
  | nil => exact ⟨c, rfl, ho, List.eq_nil_iff_forall_not_mem.mpr fun x hx => List.not_mem_nil (hkeys x hx)⟩
  | cons e fixes ih =>
    obtain ⟨⟨hstring, hallowed⟩, hfixes⟩ := List.forall_mem_cons.mp hfixes
    obtain ⟨name, hname⟩ := exists_str_of_isString hstring
    have hset : c.set e.1 e.2 = .ok { c with entries := Entries.put (.str name) e.2.thaw c.entries } := by
      rw [hname, set_str ho]
    have hdistinct : Entries.Distinct (Entries.put (.str name) e.2.thaw c.entries) := Entries.distinct_put hd
    have hleft : ∀ x ∈ ({ c with entries := Entries.put (.str name) e.2.thaw c.entries } : ConfigMap).violations,
        x.key ∈ Entries.keys fixes := by
      -- A violation that is left is under another key, where it was before.
      intro x hx
      obtain ⟨other, v, hmem, hkey, hv⟩ := Registry.exists_of_mem_violations hx
      by_cases hother : other = name
      · subst hother
        have hstored := Entries.get?_str_of_mem hdistinct hmem
        rw [Entries.get?_put_str_self] at hstored
        obtain rfl := Option.some_inj.mp hstored
        rw [hname] at hallowed
        simp [Registry.allows_thaw hallowed] at hv
      · have hold : (.str other, v) ∈ c.entries := by
          refine (Entries.mem_put_str hmem).resolve_right fun h => hother ?_
          simpa [same_str_str] using h.2
        obtain ⟨y, hy, hykey⟩ := Registry.mem_violations_of_not_allows hold hv
        have hfixed := hkeys y hy
        rw [hykey, Entries.keys, List.map_cons, List.mem_cons, hname] at hfixed
        rw [hkey]
        exact hfixed.resolve_left fun heq => hother (Value.str.inj heq)
    obtain ⟨d, hset', hrest⟩ :=
      ih (c := { c with entries := Entries.put (.str name) e.2.thaw c.entries }) ho hdistinct hfixes hleft
    exact ⟨d, bind_eq_ok.mpr ⟨_, hset, hset'⟩, hrest⟩

/-- Sealing reports what validating finds exactly if the messages of all violations can be written. In any case it
fails exactly if there is a violation, leaves the map as it is when it fails, and once the reported keys have been set
to allowed values it succeeds; when it succeeds, it does so in both modes, keeps the keys and what the map is as a
plain value and as a document, and sealing again does nothing. -/
theorem sealing_reports_as_validating_iff (c : ConfigMap) (ho : c.isSealed = false) (hd : c.entries.Distinct) :
    (c.SealsAsValidated ↔ ∀ x ∈ c.violations, x.isWritable = true) ∧
    (∀ xs, c.validate = .ok xs → xs = c.violations) ∧
    (∀ collect, (∃ e, (c.toSealed collect).result = .error e) ↔ c.violations ≠ []) ∧
    (∀ fixes : Entries, (∀ f ∈ fixes, f.1.isString = true ∧ c.registry.allows f.1 f.2 = true) →
      (∀ x ∈ c.violations, x.key ∈ Entries.keys fixes) →
      ∃ d, c.setAll fixes = .ok d ∧ ∀ collect, (d.toSealed collect).result = .ok d.frozen) ∧
    (c.violations = [] → ∀ collect, c.toSealed collect = ⟨.ok c.frozen, [c.sealRecord]⟩) ∧
    (c.frozen.toValue = c.toValue ∧ Entries.keys c.frozen.entries = Entries.keys c.entries ∧
      (∀ format, c.frozen.write format = c.write format) ∧
      ∀ collect, c.frozen.toSealed collect = ⟨.ok c.frozen, []⟩) ∧
    ∀ (s : Session) (n : Nat) (bound : String) (collect : Bool), s.mapAt n = c →
      (s.perform n bound (.close collect)).logs = (c.toSealed collect).logs ∧
      (∀ e, (c.toSealed collect).result = .error e →
        (s.perform n bound (.close collect)).result = .error e ∧
        (s.perform n bound (.close collect)).session = s) ∧
      ∀ d, (c.toSealed collect).result = .ok d →
        (s.perform n bound (.close collect)).result = .ok .itself ∧
        (s.perform n bound (.close collect)).session = s.put n d := by
  have hsealed (hnone : c.violations = []) := toSealed_of_violations_eq_nil ho hnone
  refine ⟨sealsAsValidated_iff ho, fun xs => eq_violations_of_validate, fun collect => ⟨?_, fun hsome => ?_⟩,
    fun fixes hfixes hkeys => ?_, hsealed, ?_, fun s n bound collect hmap => ?_⟩
  · rintro ⟨e, he⟩ hnone
    simp [hsealed hnone] at he
  · cases hresult : (c.toSealed collect).result with
    | error e => exact ⟨e, rfl⟩
    | ok d => exact absurd ((toSealed_eq_ok_iff ho).mp hresult).1 hsome
  · obtain ⟨d, hset, hopen, hnone⟩ := exists_setAll ho hd hfixes hkeys
    exact ⟨d, hset, fun collect => (toSealed_eq_ok_iff hopen).mpr ⟨hnone, rfl⟩⟩
  · have hsame := resembles_frozen c
    exact ⟨hsame.plain, hsame.keys, fun format => by rw [ConfigMap.write, ConfigMap.write, hsame.plain],
      fun collect => rfl⟩
  · subst hmap
    refine ⟨rfl, fun e he => ?_, fun d hdone => ?_⟩
    · simp [Session.perform, he, Session.changed, Except.map]
    · simp [Session.perform, hdone, Session.changed, Except.map]

/-- A map with a number under a key for truth values, and a text under one for numbers. -/
def twoViolations (n : Int) : ConfigMap :=
  ⟨Registry.standard, [(.str "topology.debug", .int n), (.str "note", .null), (.str "topology.workers", .str "x")], false⟩

theorem violations_twoViolations (n : Int) : (twoViolations n).violations =
    [{ key := .str "topology.debug", expected := "a boolean", value := .int n },
      { key := .str "topology.workers", expected := "a number", value := .str "x" }] := by
  rfl

theorem two_violations_are_reported_and_repaired :
    (twoViolations 1).SealsAsValidated ∧
      ∃ d, (twoViolations 1).setAll [(.str "topology.workers", .null), (.str "topology.debug", .bool true)] = .ok d ∧
        ∀ collect, (d.toSealed collect).result = .ok d.frozen := by
  have hdistinct : (twoViolations 1).entries.Distinct := by
    simp [twoViolations, Entries.Distinct, same_str_str]
  obtain ⟨hreports, -, -, hrepaired, -⟩ := sealing_reports_as_validating_iff (twoViolations 1) rfl hdistinct
  refine ⟨hreports.mpr ?_, hrepaired _ ?_ ?_⟩
  · rw [violations_twoViolations]
    have hone : Numeral.isWritable 1 = true := by decide +kernel
    simp [Violation.isWritable, Value.isWritable, hone]
  · exact List.forall_mem_cons.mpr ⟨⟨rfl, rfl⟩, List.forall_mem_singleton.mpr ⟨rfl, rfl⟩⟩
  · simp [violations_twoViolations, Entries.keys]

/-- With a number that is too long for a message, sealing fails without a report. -/
theorem long_number_prevents_report :
    ¬(twoViolations Session.longNumber).SealsAsValidated ∧
      ((twoViolations Session.longNumber).toSealed true).result = .error (.numeral .tooLongToWrite) ∧
      (twoViolations Session.longNumber).validate = .error (.numeral .tooLongToWrite) := by
  have hmem : { key := .str "topology.debug", expected := "a boolean", value := .int Session.longNumber } ∈
      (twoViolations Session.longNumber).violations := by
    rw [violations_twoViolations]
    exact List.mem_cons_self
  have hlong : Violation.isWritable
      { key := .str "topology.debug", expected := "a boolean", value := .int Session.longNumber } = false := by
    simp [Violation.isWritable, Session.isWritable_longNumber]
  refine ⟨fun h => ?_, toSealed_of_not_isWritable rfl hmem hlong, validate_of_not_isWritable hmem hlong⟩
  have hwritten := (sealsAsValidated_iff rfl).mp h _ hmem
  rw [hlong] at hwritten
  cases hwritten

end ConfigMap
end TopologyConfig
