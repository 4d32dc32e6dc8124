import TopologyConfig.Proofs.Dictionary
import TopologyConfig.Proofs.Session.Failure

/-!
An open map beside a dictionary, over whole runs of calls. The map holds what the dictionary holds and answers as it
does, save for a default that it has just stored.
-/
namespace TopologyConfig

open Value ConfigMap

namespace Session

/-- The names and the values that an update assigns, each value as it is by then. -/
def pairs? (s : Session) (n : Nat) : List Assignment → Option (List (String × Value))
  | [] => some []
  | a :: rest =>
    match (s.refreshAssignment a).named? with
    | none => none
    | some (name, v) =>
      ((s.put n { s.mapAt n with entries := Entries.put (.str name) v.thaw (s.mapAt n).entries }).refresh.pairs? n
        rest).map ((name, v) :: ·)

/-- The step on the map with the number, as a call on a dictionary; its keys have to be texts. -/
def call? (s : Session) (n : Nat) : Step → Option Dictionary.Call
  | .set (.str name) v => some (.set name v)
  | .assign (.str name) v => some (.assign name v)
  | .find (.str name) => some (.find name)
  | .remove (.str name) => some (.remove name)
  | .contains (.str name) => some (.contains name)
  | .count => some .count
  | .get (.str name) default => some (.get name default)
  | .keys => some .keys
  | .items => some .items
  | .pop (.str name) default? => some (.pop name default?)
  | .popFirst => some .popFirst
  | .setDefault (.str name) default => some (.setDefault name default)
  | .update v => (s.pairs? n (assignments v)).map .update
  | .clear => some .clear
  | _ => none

/-- The steps that are calls on a dictionary, each with its call. -/
inductive Calls (s : Session) (n : Nat) : Step → Dictionary.Call → Prop where
  | set (name : String) (v : Value) : Calls s n (.set (.str name) v) (.set name v)
  | assign (name : String) (v : Value) : Calls s n (.assign (.str name) v) (.assign name v)
  | find (name : String) : Calls s n (.find (.str name)) (.find name)
  | remove (name : String) : Calls s n (.remove (.str name)) (.remove name)
  | contains (name : String) : Calls s n (.contains (.str name)) (.contains name)
  | count : Calls s n .count .count
  | get (name : String) (default : Value) : Calls s n (.get (.str name) default) (.get name default)
  | keys : Calls s n .keys .keys
  | items : Calls s n .items .items
  | pop (name : String) (default? : Option Value) : Calls s n (.pop (.str name) default?) (.pop name default?)
  | popFirst : Calls s n .popFirst .popFirst
  | setDefault (name : String) (default : Value) :
      Calls s n (.setDefault (.str name) default) (.setDefault name default)
  | update (v : Value) (pairs : List (String × Value)) (h : s.pairs? n (assignments v) = some pairs) :
      Calls s n (.update v) (.update pairs)
  | clear : Calls s n .clear .clear

theorem calls_of_call? {s : Session} {n : Nat} {step : Step} {call : Dictionary.Call}
    (hcall : s.call? n step = some call) : s.Calls n step call := by
  unfold call? at hcall
  split at hcall
  all_goals try (cases hcall <;> constructor)
  obtain ⟨pairs, hpairs, rfl⟩ := Option.map_eq_some_iff.mp hcall
  exact .update _ pairs hpairs

/-- The map is open, and its entries look like those of the dictionary, whose keys are as they ought to be. -/
structure Mirrors (s : Session) (n : Nat) (d : Dictionary) : Prop where
  lt : n < s.maps.length
  isOpen : (s.mapAt n).isSealed = false
  outlined : (s.mapAt n).entries.outlined = d
  holds : Entries.Holds IsKey (fun _ => True) d

variable {s t : Session} {n : Nat} {d : Dictionary} {name : String} {v : Value}

theorem Mirrors.refresh (h : s.Mirrors n d) : s.refresh.Mirrors n d := by
  obtain ⟨hsealed, houtlined⟩ := outlined_refresh h.lt
  obtain ⟨maps, hmaps⟩ := s.exists_refresh_maps
  refine ⟨?_, hsealed.trans h.isOpen, houtlined.trans h.outlined, h.holds⟩
  rw [hmaps, List.length_map]
  exact h.lt

theorem Mirrors.label (h : s.Mirrors n d) : s.label.Mirrors n d := by
  obtain ⟨hsealed, houtlined⟩ := outlined_label h.lt
  exact ⟨(walked_label s).length_eq ▸ h.lt, hsealed.trans h.isOpen, houtlined.trans h.outlined, h.holds⟩

theorem Mirrors.get? (h : s.Mirrors n d) (name : String) :
    (Entries.get? (s.mapAt n).entries (.str name)).map outline = d.find? name := by
  rw [Dictionary.find?_eq_get? h.holds.keys, ← h.outlined, Entries.outlined, Entries.get?_mapValues]

/-- The map was left open with entries that look like a dictionary. -/
theorem Mirrors.put (h : s.Mirrors n d) {es : Entries} {d' : Dictionary} (hes : es.outlined = d')
    (hd' : Entries.Holds IsKey (fun _ => True) d') : (s.put n { s.mapAt n with entries := es }).Mirrors n d' := by
  refine ⟨by simpa [Session.put] using h.lt, ?_, ?_, hd'⟩
  · rw [mapAt_put h.lt]
    exact h.isOpen
  · rw [mapAt_put h.lt]
    exact hes

theorem Mirrors.put_self (h : s.Mirrors n d) : (s.put n (s.mapAt n)).Mirrors n d := by
  rw [put_mapAt]
  exact h

theorem Mirrors.insert (h : s.Mirrors n d) (name : String) (v : Value) :
    (s.put n { s.mapAt n with entries := Entries.put (.str name) v.thaw (s.mapAt n).entries }).Mirrors n
      (d.insert name v.thaw) := by
  have hput := Dictionary.insert_eq_put h.holds.distinct h.holds.keys name v.thaw
  refine h.put ?_ ?_
  · rw [Entries.outlined, Entries.mapValues_put, outline_thaw, hput]
    exact congrArg _ h.outlined
  · rw [hput]
    exact Entries.holds_put h.holds (fun _ => .leaf _ rfl) trivial

theorem Mirrors.erase (h : s.Mirrors n d) (name : String) :
    (s.put n { s.mapAt n with entries := Entries.remove (.str name) (s.mapAt n).entries }).Mirrors n (d.erase name) := by
  have hremove := Dictionary.erase_eq_remove h.holds.distinct h.holds.keys name
  refine h.put ?_ ?_
  · rw [Entries.outlined, Entries.mapValues_remove, hremove]
    exact congrArg _ h.outlined
  · rw [hremove]
    exact Entries.holds_remove h.holds

theorem Mirrors.valueOf (h : s.Mirrors n d) (name : String) :
    ((s.mapAt n).get (.str name)).map outline = d.valueOf name := by
  rw [Dictionary.valueOf, ← h.get? name, get_str]
  cases Entries.get? (s.mapAt n).entries (.str name) <;> rfl

theorem Mirrors.assignAll (h : s.Mirrors n d) {as : List Assignment} {pairs : List (String × Value)}
    (hpairs : s.pairs? n as = some pairs) :
    ∃ t, s.assignAll n as = (t, none) ∧ t.Mirrors n (d.after (.update pairs)) := by
  induction as generalizing s d pairs with
  | nil =>
    cases hpairs
    exact ⟨s, rfl, h⟩
  | cons a as ih =>
    unfold pairs? at hpairs
    split at hpairs
    · cases hpairs
    · next name v hnamed =>
      obtain ⟨rest, hrest, rfl⟩ := Option.map_eq_some_iff.mp hpairs
      have hassign := assign_eq_ok_iff.mpr ⟨h.isOpen, name, v, hnamed, rfl⟩
      obtain ⟨t, ht, hmirrors⟩ := ih (h.insert name v).refresh hrest
      refine ⟨t, ?_, hmirrors⟩
      rw [Session.assignAll, hassign]
      exact ht

/-- The step does to the map what the call does to the dictionary, and answers as an open map does. -/
def Performs (s : Session) (n : Nat) (d : Dictionary) (step : Step) (call : Dictionary.Call) : Prop :=
  ∀ bound, (s.perform n bound step).session.Mirrors n (d.after call) ∧
    (s.perform n bound step).result.map Answer.outlined = d.reply call

theorem Mirrors.performs_find (h : s.Mirrors n d) (name : String) :
    s.Performs n d (.find (.str name)) (.find name) := by
  refine fun bound => ⟨h, ?_⟩
  change _ = (d.valueOf name).map Answer.value
  rw [← h.valueOf name, Session.perform]
  cases (s.mapAt n).get (.str name) <;> rfl

theorem Mirrors.performs_contains (h : s.Mirrors n d) (name : String) :
    s.Performs n d (.contains (.str name)) (.contains name) := by
  refine fun bound => ⟨h, ?_⟩
  change _ = Except.ok (Answer.value (.bool (d.find? name).isSome))
  rw [← h.get? name, Option.isSome_map]
  rfl

theorem Mirrors.performs_get (h : s.Mirrors n d) (name : String) (default : Value) :
    s.Performs n d (.get (.str name) default) (.get name default) := by
  refine fun bound => ⟨h, ?_⟩
  change Except.ok (Answer.value ((Entries.get? (s.mapAt n).entries (.str name)).getD default).outline) =
    Except.ok (Answer.value ((d.find? name).getD default.outline))
  rw [← h.get? name, Option.getD_map]

theorem Mirrors.performs_keys (h : s.Mirrors n d) : s.Performs n d .keys .keys := by
  refine fun bound => ⟨h, ?_⟩
  have hsame : Entries.keys (s.mapAt n).entries = Entries.keys d := by
    rw [← h.outlined, Entries.outlined, Entries.keys_mapValues]
  have hkeys : (Entries.keys (s.mapAt n).entries).map outline = d.map (·.1) := by
    rw [hsame, Entries.keys, List.map_map]
    exact List.map_congr_left fun e he => (h.holds.keys e he).outline_eq
  change Except.ok (Answer.value (Value.outline (.list (Entries.keys (s.mapAt n).entries)))) = _
  rw [outline, outlineItems_eq_map, hkeys]
  rfl

theorem Mirrors.performs_count (h : s.Mirrors n d) : s.Performs n d .count .count := by
  refine fun bound => ⟨h, ?_⟩
  change _ = Except.ok (Answer.value (.int (Int.ofNat d.length)))
  rw [← h.outlined, Entries.outlined, mapValues, List.length_map]
  rfl

theorem Mirrors.performs_remove (h : s.Mirrors n d) (name : String) :
    s.Performs n d (.remove (.str name)) (.remove name) := by
  intro bound
  change _ ∧ _ = (d.valueOf name).map fun _ => Answer.value .null
  rw [← h.valueOf name, Session.perform, remove_str h.isOpen, get_str]
  cases hfound : Entries.get? (s.mapAt n).entries (.str name) with
  | some v => exact ⟨h.erase name, rfl⟩
  | none =>
    have hnone : d.find? name = none := by rw [← h.get? name, hfound]; rfl
    have herase : d.after (.remove name) = d := Dictionary.erase_of_find?_eq_none hnone
    rw [herase]
    exact ⟨h, rfl⟩

theorem Mirrors.performs_pop (h : s.Mirrors n d) (name : String) (default? : Option Value) :
    s.Performs n d (.pop (.str name) default?) (.pop name default?) := by
  intro bound
  rw [Session.perform, pop_str h.isOpen]
  have hfind := h.get? name
  cases hfound : Entries.get? (s.mapAt n).entries (.str name) with
  | some v =>
    rw [hfound] at hfind
    refine ⟨h.erase name, ?_⟩
    cases default? <;> simp [Dictionary.reply, Dictionary.answer, Dictionary.valueOf, ← hfind] <;> rfl
  | none =>
    rw [hfound] at hfind
    have herase : d.after (.pop name default?) = d := Dictionary.erase_of_find?_eq_none hfind.symm
    rw [herase]
    cases default? with
    | none => exact ⟨h, by simp [Dictionary.reply, Dictionary.answer, Dictionary.valueOf, ← hfind]; rfl⟩
    | some w => exact ⟨h.put_self, by simp [Dictionary.reply, Dictionary.answer, ← hfind]; rfl⟩

theorem Mirrors.performs_popFirst (h : s.Mirrors n d) : s.Performs n d .popFirst .popFirst := by
  intro bound
  have hd := h.outlined
  cases hes : (s.mapAt n).entries with
  | nil =>
    rw [hes] at hd
    subst hd
    rw [Session.perform, ConfigMap.popFirst, hes]
    exact ⟨h, rfl⟩
  | cons e es =>
    obtain ⟨k, v⟩ := e
    rw [hes] at hd
    subst hd
    obtain ⟨hkey, -⟩ := List.forall_mem_cons.mp h.holds.keys
    rw [Session.perform, popFirst_cons h.isOpen hkey hes]
    refine ⟨h.put rfl (h.holds.of_sublist (List.sublist_cons_self _ _)), ?_⟩
    change Except.ok (Answer.value (.tuple [outline k, outline v])) = Except.ok (Answer.value (.tuple [k, outline v]))
    rw [hkey.outline_eq]

theorem Mirrors.performs_setDefault (h : s.Mirrors n d) (name : String) (default : Value) :
    s.Performs n d (.setDefault (.str name) default) (.setDefault name default) := by
  intro bound
  have hfind := h.get? name
  rw [Session.perform, setDefault_str h.isOpen, Dictionary.after, Dictionary.reply, ← hfind]
  cases hfound : Entries.get? (s.mapAt n).entries (.str name) with
  | some v => exact ⟨h.put_self, rfl⟩
  | none => exact ⟨h.insert name default, rfl⟩

theorem Mirrors.performs_update (h : s.Mirrors n d) {v : Value} {pairs : List (String × Value)}
    (hpairs : s.pairs? n (assignments v) = some pairs) : s.Performs n d (.update v) (.update pairs) := by
  intro bound
  obtain ⟨t, ht, hmirrors⟩ := h.assignAll hpairs
  have hupdate : s.perform n bound (.update v) = { session := t, result := .ok (.value .null) } := by
    rw [Session.perform, Session.update, ht]
  rw [hupdate]
  exact ⟨hmirrors, rfl⟩

/-- An open map does what the dictionary does. -/
theorem Mirrors.performs (h : s.Mirrors n d) {step : Step} {call : Dictionary.Call} (hcall : s.call? n step = some call) :
    s.Performs n d step call := by
  cases calls_of_call? hcall with
  | set name v | assign name v =>
    intro bound
    rw [Session.perform, set_str h.isOpen]
    exact ⟨h.insert name v, rfl⟩
  | find name => exact h.performs_find name
  | remove name => exact h.performs_remove name
  | contains name => exact h.performs_contains name
  | count => exact h.performs_count
  | get name default => exact h.performs_get name default
  | keys => exact h.performs_keys
  | items => exact fun bound => ⟨h, congrArg (fun es => Except.ok (Answer.entries es)) h.outlined⟩
  | pop name default? => exact h.performs_pop name default?
  | popFirst => exact h.performs_popFirst
  | setDefault name default => exact h.performs_setDefault name default
  | update v pairs hpairs => exact h.performs_update hpairs
  | clear =>
    intro bound
    rw [Session.perform, clear_of_open h.isOpen]
    exact ⟨h.put rfl Entries.holds_nil, rfl⟩

theorem names_refresh (s : Session) : s.refresh.names = s.names := by
  unfold refresh
  split <;> rfl

theorem names_changed (s : Session) (n : Nat) (x : Except ConfigError (Answer × ConfigMap)) :
    (s.changed n x).session.names = s.names := by
  cases x <;> rfl

theorem names_assignAll (s : Session) (n : Nat) (as : List Assignment) : (s.assignAll n as).1.names = s.names := by
  induction as generalizing s with
  | nil => rfl
  | cons a as ih =>
    rw [Session.assignAll]
    split
    · rw [ih, names_refresh]
      rfl
    · rfl

/-- A call binds no map to a name. -/
theorem names_perform {step : Step} {call : Dictionary.Call} (hcall : s.call? n step = some call) (bound : String) :
    (s.perform n bound step).session.names = s.names := by
  cases calls_of_call? hcall with
  | update v => exact names_assignAll s n (assignments v)
  | find | contains | count | get | keys | items => rfl
  | _ => exact names_changed s n _

theorem outlined_refreshAnswer (s : Session) (result : Except ConfigError Answer) :
    (result.map s.refreshAnswer).map Answer.outlined = result.map Answer.outlined := by
  cases result with
  | error e => rfl
  | ok a =>
    cases a with
    | value v => exact congrArg (fun v => Except.ok (Answer.value v)) (outline_refreshed s.maps v)
    | _ => rfl

theorem Mirrors.run (h : s.Mirrors n d) (hn : s.number? name = some n) {step : Step} {call : Dictionary.Call}
    (hcall : s.call? n step = some call) (bound : String) :
    ∃ e, s.run name bound step = some e ∧ e.session.number? name = some n ∧ e.session.Mirrors n (d.after call) ∧
      e.result.map Answer.outlined = d.reply call := by
  obtain ⟨hmirrors, hresult⟩ := h.performs hcall bound
  refine ⟨_, Option.map_eq_some_iff.mpr ⟨n, hn, rfl⟩, ?_, hmirrors.label.refresh, ?_⟩
  · rw [number?, names_refresh]
    change (s.perform n bound step).session.names.lookup name = some n
    rw [names_perform hcall]
    exact hn
  · exact (outlined_refreshAnswer _ _).trans hresult

/-- Every name is bound to a map of the session. -/
def IsBound (s : Session) : Prop := ∀ p ∈ s.names, p.2 < s.maps.length

theorem Move.isBound {A P : Value → Prop} (h : Move A P s t) (hs : s.IsBound) : t.IsBound := by
  have hlength := h.length_le
  cases h with
  | bind name c r hr h =>
    intro p hp
    rcases List.mem_cons.mp hp with rfl | hp
    · simp [Session.bind]
    · exact Nat.lt_of_lt_of_le (hs p hp) hlength
  | edit | replace | label | round => exact fun p hp => Nat.lt_of_lt_of_le (hs p hp) hlength

theorem Reached.isBound {r : Registry} (h : Reached r s) : s.IsBound := by
  induction h with
  | start =>
    intro p hp
    cases List.mem_singleton.mp hp
    exact Nat.one_pos
  | step s s' k hs _ h ih =>
    have hany : s.Holds (fun _ => True) (fun _ => True) := by
      refine ⟨hs.isProper.registry, fun c hc => ?_⟩
      exact ⟨(hs.isProper.entries c hc).distinct, fun _ _ => trivial, fun _ _ => trivial⟩
    have hmoves := moves_after_any hany h
    clear h
    induction hmoves with
    | refl => exact ih
    | tail _ hlast hbound => exact hlast.isBound hbound

theorem lt_of_number? (hs : s.IsBound) (hn : s.number? name = some n) : n < s.maps.length := by
  obtain ⟨before, rest, hnames, -⟩ := List.lookup_eq_some_iff.mp hn
  exact hs (name, n) (by simp [hnames])

/-- A session, and a dictionary that was made from the map of a name and has got the same calls since. -/
inductive Beside (r : Registry) (name : String) (n : Nat) : Session → Dictionary → Prop where
  | start (s : Session) (hs : Reached r s) (hn : s.number? name = some n) (ho : (s.mapAt n).isSealed = false) :
      Beside r name n s (s.mapAt n).entries.outlined
  | step (s : Session) (d : Dictionary) (step : Step) (call : Dictionary.Call) (bound : String) (e : Effect)
      (h : Beside r name n s d) (hcall : s.call? n step = some call) (he : s.run name bound step = some e) :
      Beside r name n e.session (d.after call)

theorem Beside.mirrors {r : Registry} (h : Beside r name n s d) : s.number? name = some n ∧ s.Mirrors n d := by
  induction h with
  | start s hs hn ho =>
    have hentries := hs.isProper.mapAt n
    exact ⟨hn, lt_of_number? hs.isBound hn, ho, rfl,
      Entries.holds_mapValues ⟨hentries.distinct, hentries.keys, fun _ _ => trivial⟩ fun _ _ => trivial⟩
  | step s d step call bound e _ hcall he ih =>
    obtain ⟨e', he', hn, hmirrors, -⟩ := ih.2.run ih.1 hcall bound
    obtain rfl : e' = e := Option.some_inj.mp (he'.symm.trans he)
    exact ⟨hn, hmirrors⟩

/-- Over any run of calls, an open map holds what an insertion-ordered dictionary of plain values holds, in the same
order, and answers the same; but a default that is stored comes back as it was handed over, which is the stored value
only if it is plain. -/
theorem map_answers_as_dictionary (r : Registry) (name : String) (n : Nat) (s : Session) (d : Dictionary)
    (h : Beside r name n s d) :
    (s.mapAt n).isSealed = false ∧ (s.mapAt n).entries.outlined = d ∧
      ∀ (step : Step) (call : Dictionary.Call) (bound : String), s.call? n step = some call →
        ∃ e, s.run name bound step = some e ∧ (e.session.mapAt n).entries.outlined = d.after call ∧
          (e.result.map Answer.outlined = d.answer call ↔
            ∀ key default, call = .setDefault key default → d.find? key = none → default.outline = default.thaw) := by
  obtain ⟨hn, hmirrors⟩ := h.mirrors
  refine ⟨hmirrors.isOpen, hmirrors.outlined, fun step call bound hcall => ?_⟩
  obtain ⟨e, he, -, hafter, hresult⟩ := hmirrors.run hn hcall bound
  exact ⟨e, he, hafter.outlined, by rw [hresult, Dictionary.reply_eq_answer_iff]⟩

/-- A default without tuples or mappings of other kinds comes back as it is stored. -/
theorem stored_list_comes_back :
    ∃ e, (start Registry.standard).run "c" "c" (.setDefault (.str "a") (.list [.int 1])) = some e ∧
      (e.session.mapAt 0).entries.outlined = [(.str "a", .list [.int 1])] ∧
      e.result.map Answer.outlined = .ok (.value (.list [.int 1])) := by
  obtain ⟨-, -, hcalls⟩ := map_answers_as_dictionary Registry.standard "c" 0 _ _ (.start _ .start rfl rfl)
  obtain ⟨e, he, hafter, hresult⟩ :=
    hcalls (.setDefault (.str "a") (.list [.int 1])) (.setDefault "a" (.list [.int 1])) "c" rfl
  refine ⟨e, he, hafter, hresult.mpr fun key default hcall _ => ?_⟩
  cases hcall
  rfl

/-- A tuple that is stored as a default comes back as a tuple, and stands in the map as a list. -/
theorem stored_tuple_comes_back_otherwise :
    ∃ e v, (start Registry.standard).run "c" "c" (.setDefault (.str "a") (.tuple [.int 1, .int 2])) = some e ∧
      e.result = .ok (.value (.tuple [.int 1, .int 2])) ∧ (e.session.mapAt 0).get (.str "a") = .ok v ∧
      v.outline = .list [.int 1, .int 2] ∧ (Value.tuple [.int 1, .int 2]).outline ≠ v.outline :=
  ⟨_, .labelled 0 (.list [.int 1, .int 2]), rfl, rfl, rfl, rfl, nofun⟩

end Session
end TopologyConfig
