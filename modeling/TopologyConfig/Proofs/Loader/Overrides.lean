import TopologyConfig.Proofs.ConfigMap.Sealing
import TopologyConfig.Proofs.Loader.Saving

/-!
The layer of the environment. It has one entry for each variable that has a text, in the order of the variables, or it
fails at the first text that cannot be converted. Its entries have the shapes of their keys, so a configuration that
takes its value under a key from the environment is never refused for that key.
-/
namespace TopologyConfig

open Value ConfigMap

/-- The shape of what a text is converted to. -/
def OverrideKind.shape : OverrideKind → Shape
  | .text => .string
  | .whole => .number
  | .flag => .boolean
  | .texts => .strings
  | .wholes => .numbers

namespace Override

variable {o : Override} {e : Environment} {d : Value × Value} {es : Entries} {os : List Override} {kind : OverrideKind}
  {text : String} {v : Value}

/-- The variable has a text. -/
def isGiven (e : Environment) (o : Override) : Bool := (e.text? o.variableName).isSome

/-- The entry is the one that the variable's text is converted to. -/
def Gives (e : Environment) (o : Override) (d : Value × Value) : Prop :=
  d.1 = .str o.key ∧ ∃ text, e.text? o.variableName = some text ∧ convert o.kind text = .ok d.2

/-- The variable's text cannot be converted. -/
def Fails (e : Environment) (o : Override) (f : VariableFault) : Prop :=
  ∃ text, e.text? o.variableName = some text ∧ convert o.kind text = .error f

/-- The entry is under a recognized key whose values replace one another, and has that key's shape. -/
structure IsWellTyped (d : Value × Value) : Prop where
  validated : Registry.standard.validate d.1 d.2 = .ok none
  shaped : ∃ s, Registry.standard.shape? d.1 = some s ∧ s.accepts d.2 = true
  notNull : d.2 ≠ .null
  replaces : Registry.standard.isAccumulator d.1 = false

/-- What a text is converted to has the shape of its kind, and is a plain value but not null. -/
theorem accepts_convert (h : convert kind text = .ok v) :
    kind.shape.accepts v = true ∧ v ≠ .null ∧ v.thaw = v := by
  cases kind <;> rw [convert] at h
  case text =>
    cases h
    exact ⟨rfl, by simp, rfl⟩
  case whole =>
    obtain ⟨n, -, rfl⟩ := map_eq_ok.mp h
    exact ⟨rfl, by simp, rfl⟩
  case flag =>
    obtain ⟨b, -, rfl⟩ := map_eq_ok.mp h
    exact ⟨rfl, by simp, rfl⟩
  case texts =>
    cases h
    exact ⟨by simp [OverrideKind.shape, Shape.strings, Shape.accepts, items?, isString], by simp, by simp⟩
  case wholes =>
    obtain ⟨ns, -, rfl⟩ := map_eq_ok.mp h
    refine ⟨by simp [OverrideKind.shape, Shape.numbers, Shape.accepts, items?], by simp, ?_⟩
    simp [Function.comp_def, thaw_of_isLeaf (v := .int _) rfl]

/-- Each variable is converted to the shape of its key. -/
theorem shape?_key : ∀ o ∈ all, Registry.standard.shape? (.str o.key) = some o.kind.shape := by
  simp only [all, List.forall_mem_cons]
  exact ⟨rfl, rfl, rfl, rfl, rfl, rfl, rfl, rfl, rfl, rfl, List.forall_mem_nil _⟩

theorem nodup_keys : (all.map key).Nodup := by simp [all]

theorem Gives.isWellTyped (ho : o ∈ all) (h : o.Gives e d) : IsWellTyped d := by
  obtain ⟨hkey, text, -, hvalue⟩ := h
  obtain ⟨haccepts, hnull, -⟩ := accepts_convert hvalue
  have hshape := shape?_key o ho
  rw [← hkey] at hshape
  refine ⟨Registry.validate_eq_ok_none_iff.mpr (Registry.allows_iff.mpr fun s hs => Or.inr ?_),
    ⟨_, hshape, haccepts⟩, hnull, hkey ▸ isAccumulator_eq_false o ho⟩
  rwa [← Option.some.inj (hshape.symm.trans hs)]

/-- A variable makes the entry of its text, if it has one, or an error that names it and its key. -/
theorem entry?_cases (e : Environment) (o : Override) :
    (∃ entry, o.entry? e = .ok entry ∧ List.Forall₂ (Gives e) ([o].filter (isGiven e)) entry.toList ∧
      ∀ g, ¬ o.Fails e g) ∨
    ∃ f, o.Fails e f ∧ o.entry? e = .error (.load (.badVariable o.variableName o.key f)) := by
  unfold entry?
  cases htext : e.text? o.variableName with
  | none =>
    refine .inl ⟨none, rfl, by simp [isGiven, htext], ?_⟩
    rintro g ⟨text, hsome, -⟩
    cases htext.symm.trans hsome
  | some text =>
    cases hvalue : convert o.kind text with
    | ok v =>
      refine .inl ⟨some (.str o.key, v), by simp only [hvalue], ?_, ?_⟩
      · rw [List.filter_cons_of_pos (by simp [isGiven, htext])]
        exact .cons ⟨rfl, text, htext, hvalue⟩ .nil
      · rintro g ⟨text', htext', hg⟩
        cases htext.symm.trans htext'
        cases hvalue.symm.trans hg
    | error f => exact .inr ⟨f, ⟨text, htext, hvalue⟩, by simp only [hvalue]⟩

/-- The given variables have their entries in their order, or the first one that fails stops the others. -/
theorem entriesOf_cases (e : Environment) (os : List Override) :
    (∃ es, entriesOf e os = .ok es ∧ List.Forall₂ (Gives e) (os.filter (isGiven e)) es) ∨
    ∃ (before after : List Override) (o : Override) (f : VariableFault), os = before ++ o :: after ∧
      (∀ p ∈ before, ∀ g, ¬ p.Fails e g) ∧ o.Fails e f ∧
      entriesOf e os = .error (.load (.badVariable o.variableName o.key f)) := by
  induction os with
  | nil => exact .inl ⟨[], rfl, .nil⟩
  | cons o os ih =>
    rcases entry?_cases e o with ⟨entry, ho, hentry, hnot⟩ | ⟨f, hf, ho⟩
    · rw [entriesOf, ho]
      rcases ih with ⟨es, hes, hall⟩ | ⟨before, after, p, f, rfl, hbefore, hf, hes⟩
      · refine .inl ⟨entry.toList ++ es, by rw [hes]; rfl, ?_⟩
        rw [← List.singleton_append, List.filter_append]
        exact List.rel_append hentry hall
      · exact .inr ⟨o :: before, after, p, f, rfl, List.forall_mem_cons.mpr ⟨hnot, hbefore⟩, hf, by rw [hes]; rfl⟩
    · exact .inr ⟨[], os, o, f, rfl, by simp, hf, by rw [entriesOf, ho]; rfl⟩

theorem keys_of_gives (h : List.Forall₂ (Gives e) os es) : Entries.keys es = os.map (fun o => .str o.key) := by
  induction h with
  | nil => rfl
  | cons hod _ ih => rw [Entries.keys, List.map_cons, List.map_cons, hod.1, ← ih, Entries.keys]

theorem distinct_of_gives (h : List.Forall₂ (Gives e) os es) (hn : (os.map key).Nodup) : es.Distinct := by
  have hkeys : (Entries.keys es).Pairwise (fun j k => j.same k = false) := by
    rw [keys_of_gives h, List.pairwise_map]
    exact (List.pairwise_map.mp hn).imp fun hne => by simpa [same_str_str] using hne
  exact List.pairwise_map.mp hkeys

end Override

namespace ConfigMap

variable {r : Registry} {c d : ConfigMap} {layers : List Value} {layer job v : Value} {name : String}
  {ps : List (String × Value)}

theorem mem_valuesUnder : v ∈ valuesUnder name ps ↔ (name, v) ∈ ps := by
  simp [valuesUnder]

theorem isLayer_of_mergeOnto (ps : List (String × Value))
    (h : ((ConfigMap.mk r (layeredEntries r ps) false).mergeOnto layers).result = .ok d) :
    ∀ layer ∈ layers, IsLayer layer := by
  induction layers generalizing ps with
  | nil => simp
  | cons layer layers ih =>
    obtain ⟨c, hc, hrest⟩ := Logged.andThen_eq_ok.mp h
    have hlayer : IsLayer layer := by
      by_cases hnull : layer = .null
      · exact .inl hnull
      · have hmerge : (ConfigMap.mk r (layeredEntries r ps) false).mergeLayer layer =
            merge r (asLayer ⟨r, layeredEntries r ps, false⟩) layer := by
          cases layer <;> first | rfl | exact absurd rfl hnull
        rw [hmerge] at hc
        cases hes : layer.mapping? with
        | none =>
          unfold merge at hc
          split at hc
          · cases hc
          · simp [hes, Logged.failed] at hc
        | some es => exact .inr ⟨es, hes, ((merge_eq_ok_iff r rfl hes).mp ⟨c, hc⟩).2⟩
    rw [mergeLayer_named r ps hlayer] at hc
    cases hc
    exact List.forall_mem_cons.mpr ⟨hlayer, ih _ hrest⟩

/-- What can be merged are layers. -/
theorem isLayer_of_mergeLayers (h : (mergeLayers r layers).result = .ok d) : ∀ layer ∈ layers, IsLayer layer :=
  isLayer_of_mergeOnto [] h

/-- Under a key whose values replace one another, the highest layer that has the key decides. -/
theorem get?_layered (below above : List Value) (hr : r.isAccumulator (.str name) = false) (hv : layer.Gives name v)
    (honly : ∀ w, layer.Gives name w → w = v) (habove : ∀ other ∈ above, ∀ w, ¬ other.Gives name w) :
    Entries.get? (layered r (below ++ layer :: above)).entries (.str name) = some v.thaw := by
  have hnone : valuesUnder name (above.flatMap namedEntries) = [] := by
    refine List.eq_nil_iff_forall_not_mem.mpr fun w hw => ?_
    obtain ⟨other, hother, hgives⟩ := List.mem_flatMap.mp (mem_valuesUnder.mp hw)
    exact habove other hother w (mem_namedEntries_iff.mp hgives)
  have hone : (valuesUnder name (namedEntries layer)).getLast? = some v := by
    have hmem : v ∈ valuesUnder name (namedEntries layer) := mem_valuesUnder.mpr (mem_namedEntries_iff.mpr hv)
    cases hlast : (valuesUnder name (namedEntries layer)).getLast? with
    | none => simp [List.getLast?_eq_none_iff.mp hlast] at hmem
    | some w =>
      rw [honly w (mem_namedEntries_iff.mp (mem_valuesUnder.mp (List.mem_of_getLast? hlast)))]
  have hlast : (valuesUnder name ((below ++ layer :: above).flatMap namedEntries)).getLast? = some v := by
    simp [valuesUnder_append, hnone, List.getLast?_append, hone]
  have hname : name ∈ (((below ++ layer :: above).flatMap namedEntries).map (·.1)).eraseDups := by
    by_contra hnot
    rw [(valuesUnder_eq_nil_iff name _).mpr hnot] at hlast
    cases hlast
  rw [layered, layeredEntries, Entries.get?_ofNames, if_pos hname, hr, layeredValue, hlast]
  rfl

theorem distinct_layered (r : Registry) (layers : List Value) : (layered r layers).entries.Distinct :=
  distinct_ofNames (nodup_eraseDups _)

/-- The map without its entries under some keys. -/
def without (c : ConfigMap) (p : Value → Bool) : ConfigMap :=
  { c with entries := c.entries.filter fun e => !p e.1 }

/-- Entries that are allowed have no part in a refusal to seal. -/
theorem toSealed_without_eq_error_iff {collect : Bool} {p : Value → Bool} {e : ConfigError} (ho : c.isSealed = false)
    (h : ∀ d ∈ c.entries, p d.1 = true → c.registry.allows d.1 d.2 = true) :
    ((c.without p).toSealed collect).result = .error e ↔ (c.toSealed collect).result = .error e := by
  have hviolations : c.registry.violations (c.without p).entries = c.registry.violations c.entries := by
    rw [without, Registry.violations, Registry.violations, List.filterMap_filter]
    refine List.filterMap_congr fun d hd => ?_
    cases hp : p d.1 with
    | true => simp [Registry.violation?_eq_none_iff.mpr (h d hd hp)]
    | false => rfl
  have hinspect : (c.without p).registry.inspect (c.without p).entries = c.registry.inspect c.entries := by
    rw [Registry.inspect_eq, Registry.inspect_eq, ← hviolations]
    rfl
  have hopen : (c.without p).isSealed = false := ho
  simp only [toSealed, ho, hopen, hinspect, Bool.false_eq_true, if_false]
  split <;> simp

end ConfigMap

namespace Loader

variable {l l₁ : Loader} {s : Surroundings} {job : Value} {c : ConfigMap} {overrides : Entries} {d : Value × Value}

/-- The configuration takes the value of the key from the environment: the job does not have it. -/
def environmentDecides (overrides : Entries) (job key : Value) : Bool :=
  Entries.contains overrides key && !Entries.contains (job.mapping?.getD []) key

theorem of_load_open (h : (l.load s job false).result = .ok (l₁, c)) : ∃ layers,
    (l.layers s).result = .ok layers ∧ (mergeLayers Registry.standard (layers ++ [job])).result = .ok c := by
  obtain ⟨d, hd, h⟩ := Logged.andThen_eq_ok.mp h
  cases h
  obtain ⟨layers, hlayers, hd⟩ := Logged.andThen_eq_ok.mp hd
  obtain ⟨c, hc, hd⟩ := Logged.andThen_eq_ok.mp hd
  cases hd
  exact ⟨layers, hlayers, hc⟩

theorem load_eq_error_iff {layers : List Value} (hlayers : (l.layers s).result = .ok layers)
    (hc : (mergeLayers Registry.standard (layers ++ [job])).result = .ok c) {e : ConfigError} :
    (l.load s job true).result = .error e ↔ (c.toSealed (!l.settings.failFast)).result = .error e := by
  have hassemble : (l.assemble s job true).result = (c.toSealed (!l.settings.failFast)).result := by
    rw [assemble, Logged.andThen_result hlayers, Logged.andThen_result hc, if_pos rfl]
  rw [load, Logged.andThen, hassemble]
  split <;> simp_all

/-- The environment has one well-typed entry for each of its variables. -/
theorem of_environmentLayer (h : environmentLayer s = .ok overrides) :
    overrides.Distinct ∧ ∀ d ∈ overrides, ∃ o ∈ Override.all, o.Gives s.environment d := by
  rcases Override.entriesOf_cases s.environment Override.all with ⟨es, hes, hall⟩ | ⟨_, _, _, _, -, -, -, herror⟩
  · cases hes.symm.trans h
    have hgiven : ((Override.all.filter (Override.isGiven s.environment)).map Override.key).Nodup :=
      Override.nodup_keys.sublist (List.filter_sublist.map _)
    refine ⟨Override.distinct_of_gives hall hgiven, fun d hd => ?_⟩
    obtain ⟨o, ho, hgives⟩ := exists_of_forall₂ hall hd
    exact ⟨o, List.mem_of_mem_filter ho, hgives⟩
  · cases herror.symm.trans h

/-- What the environment decides on is as the environment has it. -/
theorem get?_of_environmentDecides (below : List Value) (h : environmentLayer s = .ok overrides) (hd : d ∈ overrides)
    (hdecides : environmentDecides overrides job d.1 = true) :
    Entries.get? (layered Registry.standard (below ++ .map overrides :: [job])).entries d.1 = some d.2 := by
  obtain ⟨hdistinct, hgives⟩ := of_environmentLayer h
  obtain ⟨o, ho, hkey, text, -, hvalue⟩ := hgives d hd
  obtain ⟨k, v⟩ := d
  obtain rfl : k = .str o.key := hkey
  obtain ⟨-, -, hplain⟩ := Override.accepts_convert hvalue
  have hgiven : (Value.map overrides).Gives o.key v := ⟨overrides, rfl, hd⟩
  have hlast := get?_layered below [job] (Override.isAccumulator_eq_false o ho) hgiven ?_ ?_
  · rwa [hplain] at hlast
  · rintro w ⟨es, hes, hw⟩
    cases hes
    exact Option.some.inj ((Entries.get?_str_of_mem hdistinct hw).symm.trans (Entries.get?_str_of_mem hdistinct hd))
  · refine List.forall_mem_singleton.mpr ?_
    rintro w ⟨es, hes, hw⟩
    have hhas : Entries.contains es (.str o.key) = true :=
      List.any_eq_true.mpr ⟨_, hw, by simp [same_str_str]⟩
    simp [environmentDecides, hes, hhas] at hdecides

/-- What the environment decides on is allowed. -/
theorem allows_of_environmentDecides (below : List Value) (h : environmentLayer s = .ok overrides)
    (hd : d ∈ (layered Registry.standard (below ++ .map overrides :: [job])).entries)
    (hdecides : environmentDecides overrides job d.1 = true) : Registry.standard.allows d.1 d.2 = true := by
  obtain ⟨name, hname⟩ := exists_str_of_mem_layered hd
  obtain ⟨k, v⟩ := d
  obtain rfl : k = .str name := hname
  obtain ⟨e, he, hsame⟩ : ∃ e ∈ overrides, e.1.same (.str name) = true :=
    List.any_eq_true.mp ((Bool.and_eq_true _ _).mp hdecides).1
  obtain ⟨o, ho, hgives⟩ := (of_environmentLayer h).2 e he
  have hkey : e.1 = .str name := by
    rw [hgives.1, same_str_str, beq_iff_eq] at hsame
    rw [hgives.1, hsame]
  have hstored := get?_of_environmentDecides below h he (hkey ▸ hdecides)
  rw [hkey, Entries.get?_str_of_mem (distinct_layered _ _) hd] at hstored
  rw [Option.some.inj hstored, ← hkey]
  exact Registry.validate_eq_ok_none_iff.mp (hgives.isWellTyped ho).validated

/-- Whatever texts the variables have, either all of them are converted, and the layer has one well-typed entry for each
in their order, or the first one that cannot be converted is named. When a configuration is refused, what it takes from
the environment is stored as it was converted, has no violation, and is not the reason: the refusal is the same without
it. -/
theorem environment_is_well_typed :
    (∀ e : Environment,
      (∃ es, Override.entries e = .ok es ∧
        List.Forall₂ (Override.Gives e) (Override.all.filter (Override.isGiven e)) es ∧ es.Distinct ∧
        ∀ d ∈ es, Override.IsWellTyped d) ∨
      ∃ (before after : List Override) (o : Override) (f : VariableFault), Override.all = before ++ o :: after ∧
        (∀ p ∈ before, ∀ g, ¬ p.Fails e g) ∧ o.Fails e f ∧
        Override.entries e = .error (.load (.badVariable o.variableName o.key f))) ∧
    ∀ (l : Loader) (s : Surroundings) (job : Value) (l₁ : Loader) (c : ConfigMap),
      (l.load s job false).result = .ok (l₁, c) →
      ∃ overrides, environmentLayer s = .ok overrides ∧
        (∀ d ∈ overrides, environmentDecides overrides job d.1 = true →
          Entries.get? c.entries d.1 = some d.2 ∧ Registry.standard.validate d.1 d.2 = .ok none) ∧
        ∀ e, (l.load s job true).result = .error e →
          (∀ x ∈ e.reported, environmentDecides overrides job x.key = false) ∧
          ((c.without (environmentDecides overrides job)).toSealed (!l.settings.failFast)).result = .error e := by
  refine ⟨fun e => ?_, fun l s job l₁ c h => ?_⟩
  · refine (Override.entriesOf_cases e Override.all).imp_left ?_
    rintro ⟨es, hes, hall⟩
    obtain ⟨hdistinct, hgives⟩ := of_environmentLayer (s := ⟨⟨[]⟩, e⟩) hes
    refine ⟨es, hes, hall, hdistinct, fun d hd => ?_⟩
    obtain ⟨o, ho, hd⟩ := hgives d hd
    exact hd.isWellTyped ho
  · obtain ⟨layers, hlayers, hc⟩ := of_load_open h
    obtain ⟨defaults, cluster, overrides, -, -, henvironment, rfl⟩ := of_layers_result hlayers
    have hrefuses {e : ConfigError} := load_eq_error_iff (e := e) hlayers hc
    rw [show [.map defaults, .map cluster, .map overrides] ++ [job] =
      [.map defaults, .map cluster] ++ .map overrides :: [job] from rfl] at hc
    rw [mergeLayers_result Registry.standard (isLayer_of_mergeLayers hc)] at hc
    obtain rfl := Except.ok.inj hc
    have hallowed : ∀ d ∈
        (layered Registry.standard ([.map defaults, .map cluster] ++ .map overrides :: [job])).entries,
        environmentDecides overrides job d.1 = true → Registry.standard.allows d.1 d.2 = true := fun d hd =>
      allows_of_environmentDecides _ henvironment hd
    refine ⟨overrides, henvironment, fun d hd hdecides => ?_, fun e he => ?_⟩
    · obtain ⟨o, ho, hgives⟩ := (of_environmentLayer henvironment).2 d hd
      exact ⟨get?_of_environmentDecides _ henvironment hd hdecides, (hgives.isWellTyped ho).validated⟩
    · have hrefused := hrefuses.mp he
      refine ⟨fun x hx => ?_, (toSealed_without_eq_error_iff rfl hallowed).mpr hrefused⟩
      obtain ⟨d, hd, hviolation⟩ := Registry.validate_of_mem_found (reported_of_toSealed hrefused x hx)
      rw [Registry.key_of_validate hviolation]
      refine Bool.eq_false_iff.mpr fun hdecides => ?_
      cases (Registry.validate_eq_ok_none_iff.mpr (hallowed d hd hdecides)).symm.trans hviolation

/-- Two variables, one of them with blanks and a blank item. -/
def twoVariables : Surroundings :=
  { LoaderRun.emptyDefaults with
    environment := ⟨[("STORM_TOPOLOGY_WORKERS", " 4 "), ("STORM_ZOOKEEPER_SERVERS", "a, ,b")]⟩ }

def badDebug : Value := .map [(.str "topology.debug", .str "x")]

/-- The entries of the two variables. -/
def twoOverrides : Entries :=
  [(.str "storm.zookeeper.servers", .list [.str "a", .str "b"]), (.str "topology.workers", .int 4)]

theorem job_is_refused_for_its_own_value : ∃ l₁ c e x,
    ((savingTo "c.json").load twoVariables badDebug false).result = .ok (l₁, c) ∧
      Entries.get? c.entries (.str "topology.workers") = some (.int 4) ∧
      ((savingTo "c.json").load twoVariables badDebug true).result = .error e ∧ e.reported = [x] ∧
      environmentDecides twoOverrides badDebug x.key = false := by
  let c : ConfigMap := ⟨Registry.standard, twoOverrides ++ [(.str "topology.debug", .str "x")], false⟩
  have hlayers : ((savingTo "c.json").layers twoVariables).result = .ok [.map [], .map [], .map twoOverrides] := rfl
  have henvironment : environmentLayer twoVariables = .ok twoOverrides := rfl
  have hjob : IsLayer badDebug := isLayer_map (by simp [isString])
  have hmade : layered Registry.standard [.map [], .map [], .map twoOverrides, badDebug] = c := rfl
  have hempty : IsLayer (.map []) := isLayer_map (by simp)
  have hmerged :
      (mergeLayers Registry.standard ([.map [], .map [], .map twoOverrides] ++ [badDebug])).result = .ok c :=
    hmade ▸ mergeLayers_result _ (by simp [hempty, isLayer_environment henvironment, hjob])
  have hopen : ((savingTo "c.json").load twoVariables badDebug false).result =
      .ok ({ savingTo "c.json" with config := some c, job := badDebug }, c) :=
    hmade ▸ load_result rfl rfl henvironment hjob
  have hrefused := (load_eq_error_iff (l := savingTo "c.json") hlayers hmerged).mpr rfl
  obtain ⟨overrides, hoverrides, hstored, hreported⟩ := environment_is_well_typed.2 _ _ _ _ _ hopen
  cases henvironment.symm.trans hoverrides
  have hworkers := hstored (.str "topology.workers", .int 4) (by simp [twoOverrides])
    (by simp [environmentDecides, Entries.contains, twoOverrides, badDebug, mapping?, same_str_str])
  exact ⟨_, c, _, _, hopen, hworkers.1, hrefused, rfl, (hreported _ hrefused).1 _ (List.mem_singleton_self _)⟩

/-- The first of two failing variables is named, in the order of the variables. -/
example : Override.entries ⟨[("STORM_TOPOLOGY_DEBUG", "maybe"), ("STORM_ZOOKEEPER_PORT", "²")]⟩ =
    .error (.load (.badVariable "STORM_ZOOKEEPER_PORT" "storm.zookeeper.port" (.numeral (.malformed 10 "²")))) := rfl

end Loader
end TopologyConfig
