import TopologyConfig.Proofs.ConfigMap.Failure
import TopologyConfig.Proofs.ConfigMap.Layers
import TopologyConfig.Proofs.Session.Keys
import TopologyConfig.Proofs.Session.Path

/-!
Commands that fail. A failing command on a map leaves all maps as they were, save for two: an update keeps the pairs
before the one at fault, and an append under a key without a text fails with its entry stored.
-/
namespace TopologyConfig

open Value ConfigMap

theorem error_of_map {ε α β : Type} {x : Except ε α} {f : α → β} {e : ε} (h : x.map f = .error e) :
    x = .error e := by
  cases x with
  | ok a => cases h
  | error e => exact congrArg _ (Except.error.inj h)

namespace ConfigMap

variable {c d : ConfigMap} {es fs : Entries} {key v : Value}

/-- The key and the value that the part of an update assigns. -/
def Assignment.pair? : Assignment → Option (Value × Value)
  | .entry k v => some (k, v)
  | .element v => (unpack v).toOption
  | .failure _ => none

/-- The name and the value that the part of an update assigns, if it is in order: a pair with a text for a key. -/
def Assignment.named? (a : Assignment) : Option (String × Value) :=
  match a.pair? with
  | some (.str name, v) => some (name, v)
  | _ => none

/-- How many entries the list under the key has; a value that is no list counts as one. -/
def countUnder (c : ConfigMap) (key : Value) : Nat := (asEntries ((Entries.get? c.entries key).getD .null)).length

theorem Assignment.named?_eq_some_iff {a : Assignment} {name : String} :
    a.named? = some (name, v) ↔ a.pair? = some (.str name, v) := by
  unfold named?
  split
  · next hpair => simp [hpair]
  · next hnot =>
    refine ⟨nofun, fun hpair => ?_⟩
    exact absurd hpair (hnot name v)

theorem assign_eq_ok_iff_set {a : Assignment} :
    c.assign a = .ok d ↔ ∃ k v, a.pair? = some (k, v) ∧ c.set k v = .ok d := by
  cases a with
  | entry k v => simp [assign, Assignment.pair?]
  | element v =>
    rw [assign, Assignment.pair?]
    cases unpack v with
    | ok x =>
      refine ⟨fun h => ⟨x.1, x.2, rfl, h⟩, ?_⟩
      rintro ⟨k, w, hx, h⟩
      cases hx
      exact h
    | error e => simp [Except.toOption]
  | failure e => simp [assign, Assignment.pair?]

/-- A part of an update is assigned exactly if it is in order and the map is open. -/
theorem assign_eq_ok_iff {a : Assignment} : c.assign a = .ok d ↔
    c.isSealed = false ∧ ∃ name v, a.named? = some (name, v) ∧
      d = { c with entries := Entries.put (.str name) v.thaw c.entries } := by
  simp only [assign_eq_ok_iff_set, set_eq_ok_iff, Assignment.named?_eq_some_iff]
  constructor
  · rintro ⟨k, v, hpair, ho, hk, rfl⟩
    obtain ⟨name, rfl⟩ := exists_str_of_isString hk
    exact ⟨ho, name, v, hpair, rfl⟩
  · rintro ⟨ho, name, v, hpair, rfl⟩
    exact ⟨_, v, hpair, ho, rfl, rfl⟩

theorem assign_error {a : Assignment} {e : ConfigError} (h : c.assign a = .error e) :
    c.isSealed = true ∨ a.named? = none := by
  by_contra hnot
  obtain ⟨ho, hn⟩ := not_or.mp hnot
  obtain ⟨⟨name, v⟩, hnamed⟩ := Option.ne_none_iff_exists'.mp hn
  have hok := assign_eq_ok_iff.mpr ⟨by simpa using ho, name, v, hnamed, rfl⟩
  rw [h] at hok
  cases hok

end ConfigMap

theorem Entries.get?_put_self {es : Entries} {key v : Value} (h : key.same key = true) :
    get? (put key v es) key = some v := by
  induction es with
  | nil => simp [put, get?_cons_of_same [] h]
  | cons e es ih =>
    rw [put]
    split
    · next he => rw [get?_cons_of_same es he]
    · next he => rw [get?_cons_of_not_same _ (by simpa using he), ih]

namespace Value

/-- How many entries a value stands for depends on whether it is null and on how long it is as a list. -/
theorem length_asEntries_congr {v w : Value} (hn : isNull w = isNull v)
    (hl : w.listItems?.map List.length = v.listItems?.map List.length) :
    (asEntries w).length = (asEntries v).length := by
  have hlength (v : Value) :
      (asEntries v).length = if isNull v then 0 else (v.listItems?.map List.length).getD 1 := by
    unfold asEntries isNull
    split <;> simp_all
  rw [hlength, hlength, hn, hl]

theorem length_asEntries_refreshed (maps : List ConfigMap) (v : Value) :
    (asEntries (v.refreshed maps)).length = (asEntries v).length := by
  refine length_asEntries_congr (by cases v <;> first | rfl | (rw [Value.refreshed]; split <;> rfl)) ?_
  induction v using induction with
  | leaf v h => rw [refreshed_of_isLeaf _ h]
  | list xs | frozenList xs => simp [Value.refreshed, listItems?, refreshedItems_eq_map]
  | config n b es =>
    rw [Value.refreshed]
    split <;> rfl
  | labelled l v ih => exact ih
  | _ => rfl

theorem length_asEntries_withLabels (v : Value) (next : Nat) :
    (asEntries (v.withLabels next).1).length = (asEntries v).length := by
  cases v with
  | list xs | frozenList xs => simpa [withLabels, asEntries, listItems?] using (labels_items next xs).length_eq.symm
  | _ => rfl

end Value

namespace Session

variable {s t : Session} {n i : Nat} {key : Value} {step : Step} {e : ConfigError}

/-- The values under the keys stand for as many entries as before. -/
def SameCount (v w : Value) : Prop := (asEntries w).length = (asEntries v).length

theorem Walked.countUnder_eq {cs ds : List ConfigMap} (h : Walked SameCount cs ds) {c : ConfigMap}
    (hc : cs[i]? = some c) (key : Value) : ∃ d, ds[i]? = some d ∧ d.countUnder key = c.countUnder key := by
  obtain ⟨d, hd, -, -, hes⟩ := h.getElem?_eq_some hc
  refine ⟨d, hd, ?_⟩
  rw [countUnder, countUnder]
  cases hv : Entries.get? c.entries key with
  | some v =>
    obtain ⟨w, hw, hsame⟩ := hes.get?_eq_some hv
    rw [hw]
    exact hsame
  | none =>
    have hnone : Entries.get? d.entries key = none := by
      rw [← Option.not_isSome_iff_eq_none, Entries.isSome_get?_iff, hes.keys_eq, ← Entries.isSome_get?_iff, hv]
      exact Bool.false_ne_true
    rw [hnone]

theorem countUnder_label_refresh (s : Session) (hi : i < s.maps.length) (key : Value) :
    (s.label.refresh.mapAt i).countUnder key = (s.mapAt i).countUnder key := by
  have hlabel : Walked SameCount s.maps s.label.maps := by
    refine (walked_label s).imp fun c d ⟨hr, hs, hes⟩ => ⟨hr, hs, hes.imp ?_⟩
    rintro v w ⟨next, rfl⟩
    exact length_asEntries_withLabels v next
  obtain ⟨d, hd, hlabelled⟩ := hlabel.countUnder_eq (List.getElem?_eq_getElem hi) key
  obtain ⟨maps, hmaps⟩ := s.label.exists_refresh_maps
  have hrefresh : Walked SameCount s.label.maps s.label.refresh.maps := by
    have hvalues : ConfigMap.refreshed maps =
        fun c => { c with entries := mapValues (Value.refreshed maps) c.entries } :=
      funext fun c => by rw [ConfigMap.refreshed, refreshedEntries_eq_mapValues]
    rw [hmaps, hvalues]
    exact walked_map fun c _ e _ => length_asEntries_refreshed maps e.2
  obtain ⟨d', hd', hrefreshed⟩ := hrefresh.countUnder_eq hd key
  rw [mapAt_of_getElem? hd', hrefreshed, hlabelled, mapAt_of_lt hi]

/-- The map that a step updates, and what it is updated with. -/
def updateTarget? (s : Session) (n : Nat) : Step → Option (Nat × Value)
  | .update v => some (n, v)
  | .mutate path .update [v] =>
    match s.follow path (.map n) with
    | .ok (.map held) => some (held, v)
    | _ => none
  | _ => none

/-- The step is about a list, map or set inside the values, or about another part of them, and not about a map of the
session. -/
def IsAboutPart (s : Session) (n : Nat) (step : Step) : Prop :=
  ∃ path m args v, step = .mutate path m args ∧ s.follow path (.map n) = .ok (.part v)

/-- The step appends to a map under a key without a text. -/
def AppendsLate (s : Session) (n : Nat) (step : Step) : Prop :=
  ∃ i key, s.appendTarget? n step = some (i, key) ∧ i < s.maps.length ∧ (s.mapAt i).FailsLate key

/-- The parts of an update are assigned one after the other, and the session is brought up to date after each. -/
inductive Assigned (i : Nat) : Session → List Assignment → Session → Prop where
  | nil (s : Session) : Assigned i s [] s
  | cons (s t : Session) (a : Assignment) (as : List Assignment) (name : String) (v : Value)
      (ha : (s.refreshAssignment a).named? = some (name, v)) (ho : (s.mapAt i).isSealed = false)
      (h : Assigned i (s.put i { s.mapAt i with
        entries := Entries.put (.str name) v.thaw (s.mapAt i).entries }).refresh as t) : Assigned i s (a :: as) t

theorem exists_assigned_of_error {as : List Assignment} (h : s.assignAll i as = (t, some e)) :
    ∃ done a rest, as = done ++ a :: rest ∧ Assigned i s done t ∧
      ((t.mapAt i).isSealed = true ∨ (t.refreshAssignment a).named? = none) := by
  induction as generalizing s with
  | nil => cases h
  | cons a as ih =>
    unfold assignAll at h
    split at h
    · next c hc =>
      obtain ⟨ho, name, v, ha, rfl⟩ := assign_eq_ok_iff.mp hc
      obtain ⟨done, b, rest, rfl, hdone, hfault⟩ := ih h
      exact ⟨a :: done, b, rest, rfl, .cons _ _ _ _ name v ha ho hdone, hfault⟩
    · next hf =>
      cases h
      exact ⟨[], a, as, rfl, .nil _, assign_error hf⟩

theorem session_changed_of_error {r : Except ConfigError (Answer × ConfigMap)}
    (h : (s.changed n r).result = .error e) : (s.changed n r).session = s := by
  cases r with
  | ok x => cases h
  | error e => rfl

theorem session_making_of_error {name : String} {made : Logged ConfigMap}
    (h : (s.making name made).result = .error e) : (s.making name made).session = s := by
  unfold making at h ⊢
  split at h
  · cases h
  · rfl

/-- A map that was left as it was, or on which an append fails late, was put back. -/
theorem session_put_of_after {c : ConfigMap} (hc : c = s.mapAt i ∨ (s.mapAt i).FailsLate key)
    (ht : (s.mapAt i).FailsLate key → s.appendTarget? n step = some (i, key)) :
    s.put i c = s ∨ s.AppendsLate n step := by
  rcases Nat.lt_or_ge i s.maps.length with hi | hi
  · rcases hc with rfl | hlate
    · exact Or.inl (put_mapAt s i)
    · exact Or.inr ⟨i, key, ht hlate, hi, hlate⟩
  · exact Or.inl (put_of_ge hi)

theorem mutate_map_of_length {path args : List Value} {m : Method} (hf : s.follow path (.map n) = .ok (.map i))
    (hm : m = .update → args.length ≠ 1) :
    s.mutate n path m args =
      { session := s.put i ((s.mapAt i).applyMethod m args).after
        result := ((s.mapAt i).applyMethod m args).result.map .value
        logs := ((s.mapAt i).applyMethod m args).logs } := by
  unfold mutate
  split <;> simp_all

theorem session_mutate_of_error {path args : List Value} {m : Method} (h : (s.mutate n path m args).result = .error e)
    (hu : s.updateTarget? n (.mutate path m args) = none) (hp : ¬ s.IsAboutPart n (.mutate path m args)) :
    (s.mutate n path m args).session = s ∨ s.AppendsLate n (.mutate path m args) := by
  cases hf : s.follow path (.map n) with
  | error x => exact Or.inl (by simp [mutate, hf])
  | ok target =>
    cases target with
    | part v => exact absurd ⟨path, m, args, v, rfl, hf⟩ hp
    | map held =>
      have hm : m = .update → args.length ≠ 1 := by
        rintro rfl hlength
        obtain ⟨v, rfl⟩ := List.length_eq_one_iff.mp hlength
        simp [updateTarget?, hf] at hu
      rw [mutate_map_of_length hf hm] at h ⊢
      rcases after_applyMethod_of_error hm (error_of_map h) with hafter | ⟨key, entry, rfl, rfl, hlate⟩
      · exact Or.inl (by rw [hafter, put_mapAt])
      · exact session_put_of_after (Or.inr hlate) fun _ => by simp [appendTarget?, hf]

/-- A failing step on a map that is no update leaves the session as it was, unless it fails late. -/
theorem session_perform_of_error {name : String} (h : (s.perform n name step).result = .error e)
    (hu : s.updateTarget? n step = none) (hp : ¬ s.IsAboutPart n step) :
    (s.perform n name step).session = s ∨ s.AppendsLate n step := by
  cases step with
  | update v => cases hu
  | mutate path m args => exact session_mutate_of_error h hu hp
  | append key entry =>
    have hx := error_of_map h
    exact session_put_of_after (after_append_of_error hx) fun _ => rfl
  | call t positional named =>
    have hx := error_of_map h
    exact Or.inl (by rw [perform, appended, after_call_of_error hx, put_mapAt])
  | make | copy | deepCopy | transfer | merge | mergeLayers | read | roundTrip =>
    exact Or.inl (session_making_of_error h)
  | set | assign | remove | pop | popFirst | setDefault | clear | close => exact Or.inl (session_changed_of_error h)
  | _ => exact Or.inl rfl

theorem perform_of_updateTarget? {v : Value} (name : String) (h : s.updateTarget? n step = some (i, v)) :
    s.perform n name step = s.update i v := by
  unfold updateTarget? at h
  split at h
  · cases h
    rfl
  · split at h
    · next hf =>
      cases h
      simp [perform, mutate, hf]
    · cases h
  · cases h

theorem exists_assignAll_of_error {v : Value} (h : (s.update i v).result = .error e) :
    ∃ t x, s.assignAll i (assignments v) = (t, some x) := by
  unfold Session.update at h
  cases hall : s.assignAll i (assignments v) with
  | mk t e? =>
    cases e? with
    | none => simp [hall] at h
    | some x => exact ⟨t, x, rfl⟩

/-- An append that fails late has put one more entry into the list under its key. -/
theorem countUnder_of_appendTarget? {name : String} (ht : s.appendTarget? n step = some (i, key))
    (hi : i < s.maps.length) (hlate : (s.mapAt i).FailsLate key) (hkey : IsKey key) :
    ((s.perform n name step).session.label.refresh.mapAt i).countUnder key = (s.mapAt i).countUnder key + 1 := by
  obtain ⟨entry, hperform⟩ := perform_of_appendTarget? name ht
  have hput (d : ConfigMap) : i < (s.put i d).maps.length := by simpa [Session.put] using hi
  rw [hperform, hlate.append entry, countUnder_label_refresh _ (hput _), mapAt_put hi, countUnder,
    Entries.get?_put_self hkey.same_self]
  simp [asEntries, listItems?, extended, countUnder]

theorem Settled.refresh_eq (h : s.Settled) : s.refresh = s := by
  have hrounds (k : Nat) : refreshRounds k s.maps = s.maps := by
    induction k with
    | zero => rfl
    | succ k ih => rw [refreshRounds_succ, ih, h]
  unfold refresh
  split
  · rw [hrounds]
  · rfl

/-- What a failing command leaves behind, in any session that programs reach. If it is no update and is about a map, the
session is as it was, only brought up to date, exactly if the command does not append under a key without a text; such
an append has added its entry. An update has assigned the parts before the one at fault, and none if the map is sealed.
A session in which no map holds itself is up to date. -/
theorem failing_command_keeps_maps (r : Registry) (s : Session) (h : Reached r s) (k : Command) (hk : s.Admits k)
    (e : Effect) (he : s.run k.name k.bound k.step = some e) (f : ConfigError) (hf : e.result = .error f) :
    ∃ n, s.number? k.name = some n ∧
      (¬ s.IsAboutPart n k.step → s.updateTarget? n k.step = none →
        (e.session = s.refresh ↔ ¬ s.AppendsLate n k.step)) ∧
      (∀ i key, s.appendTarget? n k.step = some (i, key) → i < s.maps.length → (s.mapAt i).FailsLate key →
        (e.session.mapAt i).countUnder key = (s.mapAt i).countUnder key + 1) ∧
      (∀ i v, s.updateTarget? n k.step = some (i, v) →
        ∃ done a rest t, assignments v = done ++ a :: rest ∧ Assigned i s done t ∧ e.session = t.label.refresh ∧
          ((t.mapAt i).isSealed = true ∨ (t.refreshAssignment a).named? = none) ∧
          ((s.mapAt i).isSealed = true → done = [] ∧ e.session = s.refresh)) ∧
      (s.Acyclic → s.refresh = s) := by
  obtain ⟨n, hn, rfl⟩ := Option.map_eq_some_iff.mp he
  have hlabel : s.label = s := h.isMarked.label_eq
  have hresult : (s.perform n k.bound k.step).result = .error f := error_of_map hf
  have hcount (i : Nat) (key : Value) (ht : s.appendTarget? n k.step = some (i, key)) (hi : i < s.maps.length)
      (hlate : (s.mapAt i).FailsLate key) :
      ((s.perform n k.bound k.step).session.label.refresh.mapAt i).countUnder key = (s.mapAt i).countUnder key + 1 :=
    countUnder_of_appendTarget? ht hi hlate ((hk.1 key (mem_values_of_appendTarget? ht)).isKey hlate.hashable)
  refine ⟨n, hn, fun hp hu => ⟨?_, fun hlate => ?_⟩, hcount, fun i v hu => ?_,
    fun ha => (h.settled ha).refresh_eq⟩
  · rintro hsame ⟨i, key, ht, hi, hlate⟩
    have hmore := hcount i key ht hi hlate
    have hkept := countUnder_label_refresh s hi key
    dsimp only at hsame
    rw [hlabel] at hkept
    rw [hsame, hkept] at hmore
    omega
  · have hkept := (session_perform_of_error hresult hu hp).resolve_right hlate
    dsimp only
    rw [hkept, hlabel]
  · obtain ⟨t, x, hall⟩ := exists_assignAll_of_error (perform_of_updateTarget? k.bound hu ▸ hresult)
    obtain ⟨done, a, rest, hparts, hdone, hfault⟩ := exists_assigned_of_error hall
    have hsession : (s.perform n k.bound k.step).session = t := by
      rw [perform_of_updateTarget? k.bound hu, Session.update, hall]
    refine ⟨done, a, rest, t, hparts, hdone, congrArg (·.label.refresh) hsession, hfault, fun hs => ?_⟩
    cases hdone with
    | nil => exact ⟨rfl, by dsimp only; rw [hsession, hlabel]⟩
    | cons _ _ _ _ _ _ _ ho _ => simp [hs] at ho

/-- An update with two pairs, of which the second one has a number for a key: the first one is stored. -/
theorem update_stops_at_number :
    ∃ e, (start Registry.standard).run "c" "c"
        (.update (.list [.tuple [.str "a", .int 1], .tuple [.int 5, .null]])) = some e ∧
      e.result = .error (.keyNotString "int") ∧ (e.session.mapAt 0).entries = [(.str "a", .int 1)] ∧
      ∃ done a rest t, assignments (.list [.tuple [.str "a", .int 1], .tuple [.int 5, .null]]) = done ++ a :: rest ∧
        Assigned 0 (start Registry.standard) done t ∧ e.session = t.label.refresh := by
  have hadmits : (start Registry.standard).Admits
      ⟨"c", "c", .update (.list [.tuple [.str "a", .int 1], .tuple [.int 5, .null]])⟩ := by
    have hpair {k v : Value} (hk : k.isLeaf = true) (hv : v.isLeaf = true) : Proper 1 (.tuple [k, v]) :=
      .tuple _ (List.forall_mem_cons.mpr ⟨.leaf k hk, List.forall_mem_singleton.mpr (.leaf v hv)⟩)
    refine ⟨List.forall_mem_singleton.mpr (.list _ ?_), by simp [Step.isForeign]⟩
    exact List.forall_mem_cons.mpr ⟨hpair rfl rfl, List.forall_mem_singleton.mpr (hpair rfl rfl)⟩
  obtain ⟨n, hn, -, -, hupdate, -⟩ := failing_command_keeps_maps _ _ .start
    ⟨"c", "c", .update (.list [.tuple [.str "a", .int 1], .tuple [.int 5, .null]])⟩ hadmits _ rfl
    (.keyNotString "int") rfl
  cases hn
  obtain ⟨done, a, rest, t, hparts, hdone, hsession, -, -⟩ := hupdate 0 _ rfl
  exact ⟨_, rfl, rfl, rfl, done, a, rest, t, hparts, hdone, hsession⟩

/-- The least number with too many digits to be written. -/
def longNumber : Int := .ofNat (Nat.pow 10 maxDigits)

theorem isWritable_longNumber : (Value.int longNumber).isWritable = false := by
  have hdigits (k : Nat) : (Int.ofNat k).natAbs = k := rfl
  rw [Value.isWritable, Numeral.isWritable, longNumber, hdigits, decide_eq_false_iff_not]
  exact Nat.lt_irrefl _

/-- An append under a number with too many digits for a message fails, and its entry is in the map all the same. -/
theorem append_under_long_number_fails_late :
    ∃ e, (start Registry.standard).run "c" "c" (.append (.int longNumber) (.str "x")) = some e ∧
      e.result = .error (.numeral .tooLongToWrite) ∧
      (e.session.mapAt 0).entries ≠ ((start Registry.standard).mapAt 0).entries := by
  have hlate : ((start Registry.standard).mapAt 0).FailsLate (.int longNumber) := ⟨rfl, rfl, isWritable_longNumber⟩
  have hcount : (((start Registry.standard).perform 0 "c"
      (.append (.int longNumber) (.str "x"))).session.label.refresh.mapAt 0).countUnder (.int longNumber) =
        ((start Registry.standard).mapAt 0).countUnder (.int longNumber) + 1 :=
    countUnder_of_appendTarget? rfl Nat.one_pos hlate (.leaf _ rfl)
  refine ⟨_, rfl, ?_, fun hsame => ?_⟩
  · dsimp only
    rw [perform, appended, hlate.append]
    rfl
  · rw [countUnder, hsame] at hcount
    exact absurd hcount (by decide)

end Session
end TopologyConfig
