import TopologyConfig.Proofs.ConfigMap.Calls
import TopologyConfig.Proofs.Session.Walk

/-!
What can happen to a session. Every step is a sequence of moves: a map is edited, a new map is bound, or all maps
are walked through. What the moves keep is kept by all steps.
-/
namespace TopologyConfig

open Value ConfigMap Relation

variable {A P : Value → Prop}

/-- A property of values that also passes through the walks and through changes in place. -/
structure SessionHereditary (A P : Value → Prop) : Prop extends Hereditary A P where
  item : ∀ v key x, P v → (v.apply .getItem [key]).result = .ok x → P x
  change : ∀ l w m args next, P (.labelled l w) → (∀ a ∈ args, P a) →
    P (.labelled l (((Value.labelled l w).apply m args).after.withLabels next).1.bare)
  labels : ∀ v w, P v → Labels v w → P w
  relabelled : ∀ l w v, P (.labelled l w) → P v → P (relabelled l w v)
  refreshed : ∀ maps v, (∀ c ∈ maps, c.entries.Holds A P) → P v → P (refreshed maps v)

/-- The values that a step may store, and the key that it may store as it is. -/
def Step.values : Step → List Value
  | .make v | .set _ v | .assign _ v | .setDefault _ v | .update v => [v]
  | .append key entry => [key, entry]
  | .merge base overlay => [base, overlay]
  | .mergeLayers layers => layers
  | .call _ positional named => positional ++ named.map (·.2)
  | .mutate _ _ args => args
  | _ => []

/-- The step brings in values that are not handed to it: from a text or from another process. -/
def Step.isForeign : Step → Bool
  | .transfer _ | .read _ _ | .roundTrip _ => true
  | _ => false

namespace Session

variable {s s' : Session} {n : Nat} {c d : ConfigMap}

/-- The number of the map that a step appends to, and the key under which it does. -/
def appendTarget? (s : Session) (n : Nat) : Step → Option (Nat × Value)
  | .append key _ => some (n, key)
  | .mutate path .append [key, _] =>
    match s.follow path (.map n) with
    | .ok (.map held) => some (held, key)
    | _ => none
  | _ => none

inductive Move (A P : Value → Prop) : Session → Session → Prop where
  | edit (s : Session) (n : Nat) (d : ConfigMap) (h : Edit A P (s.mapAt n) d) : Move A P s (s.put n d)
  | bind (s : Session) (name : String) (c : ConfigMap) (r : Registry) (hr : r.keys = s.registry.keys)
      (h : Edits A P (empty r) c) : Move A P s (s.bind name c)
  | replace (s : Session) (l : Nat) (v : Value) (h : ∀ next, P (.labelled l (v.withLabels next).1.bare)) :
      Move A P s (s.replace l v)
  | label (s : Session) : Move A P s s.label
  | round (s : Session) : Move A P s { s with maps := refreshRound s.maps }

abbrev Moves (A P : Value → Prop) : Session → Session → Prop := ReflTransGen (Move A P)

/-- All maps know the keys of the session's registry, and their entries have the properties. -/
structure Holds (A P : Value → Prop) (s : Session) : Prop where
  registry : ∀ c ∈ s.maps, c.registry.keys = s.registry.keys
  entries : ∀ c ∈ s.maps, c.entries.Holds A P

theorem holds_start (r : Registry) : (start r).Holds A P := by
  refine ⟨fun c hc => ?_, fun c hc => ?_⟩ <;> cases List.mem_singleton.mp hc
  · rfl
  · exact Entries.holds_nil

theorem mapAt_of_lt (h : n < s.maps.length) : s.mapAt n = s.maps[n] := by
  simp [mapAt, h]

theorem mapAt_of_ge (h : s.maps.length ≤ n) : s.mapAt n = empty s.registry := by
  simp [mapAt, h]

theorem mapAt_of_getElem? (h : s.maps[n]? = some c) : s.mapAt n = c := by
  obtain ⟨hn, hget⟩ := List.getElem?_eq_some_iff.mp h
  rw [mapAt_of_lt hn, hget]

theorem lt_of_isSealed (h : (s.mapAt n).isSealed = true) : n < s.maps.length := by
  by_contra hge
  rw [mapAt_of_ge (by omega)] at h
  cases h

theorem mapAt_mem (h : n < s.maps.length) : s.mapAt n ∈ s.maps := by
  rw [mapAt_of_lt h]
  exact List.getElem_mem h

theorem Holds.mapAt (h : s.Holds A P) (n : Nat) : (s.mapAt n).entries.Holds A P := by
  rcases Nat.lt_or_ge n s.maps.length with hn | hn
  · exact h.entries _ (mapAt_mem hn)
  · rw [mapAt_of_ge hn]
    exact Entries.holds_nil

theorem Holds.mapAt_registry (h : s.Holds A P) (n : Nat) : (s.mapAt n).registry.keys = s.registry.keys := by
  rcases Nat.lt_or_ge n s.maps.length with hn | hn
  · exact h.registry _ (mapAt_mem hn)
  · rw [mapAt_of_ge hn]
    rfl

theorem put_of_ge (h : s.maps.length ≤ n) : s.put n c = s := by
  simp [put, List.set_eq_of_length_le h]

theorem put_mapAt (s : Session) (n : Nat) : s.put n (s.mapAt n) = s := by
  rcases Nat.lt_or_ge n s.maps.length with hn | hn
  · simp [put, mapAt_of_lt hn]
  · exact put_of_ge hn

theorem mapAt_put (h : n < s.maps.length) : (s.put n c).mapAt n = c := by
  simp [put, Session.mapAt, h]

theorem mapAt_put_of_ne {k : Nat} (h : ¬ (n = k ∧ k < s.maps.length)) : (s.put k c).mapAt n = s.mapAt n := by
  rcases Nat.lt_or_ge k s.maps.length with hk | hk
  · have hne : k ≠ n := fun heq => h ⟨heq.symm, hk⟩
    simp [put, Session.mapAt, List.getD_eq_getElem?_getD, List.getElem?_set_ne hne]
  · rw [put_of_ge hk]

theorem put_put (s : Session) (n : Nat) (c d : ConfigMap) : (s.put n c).put n d = s.put n d := by
  simp [put]

theorem holds_of_walked {R : Value → Value → Prop} (hs : s.Holds A P) (hr : s'.registry = s.registry)
    (h : Walked R s.maps s'.maps) (hR : ∀ v w, P v → R v w → P w) : s'.Holds A P := by
  refine ⟨fun d hd => ?_, fun d hd => ?_⟩
  · obtain ⟨c, hc, hreg, -, -⟩ := h.of_mem hd
    rw [hreg, hr, hs.registry c hc]
  · obtain ⟨c, hc, -, -, hes⟩ := h.of_mem hd
    exact hes.holds (hs.entries c hc) hR

theorem holds_put (hs : s.Holds A P) (hr : d.registry = (s.mapAt n).registry) (hd : d.entries.Holds A P) :
    (s.put n d).Holds A P := by
  refine ⟨fun c hc => ?_, fun c hc => ?_⟩
  · rcases List.mem_or_eq_of_mem_set hc with hc | rfl
    · exact hs.registry c hc
    · rw [hr]
      exact hs.mapAt_registry n
  · rcases List.mem_or_eq_of_mem_set hc with hc | rfl
    · exact hs.entries c hc
    · exact hd

theorem Move.holds (H : SessionHereditary A P) (h : Move A P s s') (hs : s.Holds A P) : s'.Holds A P := by
  cases h with
  | edit n d h => exact holds_put hs h.registry_eq (h.holds H.toHereditary (hs.mapAt n))
  | bind name c r hr h =>
    refine ⟨fun d hd => ?_, fun d hd => ?_⟩
    · rcases List.mem_append.mp hd with hd | hd
      · exact hs.registry d hd
      · cases List.mem_singleton.mp hd
        rw [h.registry_eq]
        exact hr
    · rcases List.mem_append.mp hd with hd | hd
      · exact hs.entries d hd
      · cases List.mem_singleton.mp hd
        exact holds_of_edits_empty H.toHereditary h
  | replace l v h =>
    refine holds_of_walked hs rfl (walked_replace s l v) fun x y hx hy => ?_
    exact hy ▸ H.relabelled l _ x (h _) hx
  | label => exact holds_of_walked hs rfl (walked_label s) H.labels
  | round =>
    refine holds_of_walked hs rfl (walked_refreshRound s.maps) fun x y hx hy => ?_
    exact hy ▸ H.refreshed s.maps x hs.entries hx

theorem Moves.holds (H : SessionHereditary A P) (h : Moves A P s s') (hs : s.Holds A P) : s'.Holds A P := by
  induction h with
  | refl => exact hs
  | tail _ hlast ih => exact hlast.holds H ih

theorem Moves.registry_eq (h : Moves A P s s') : s'.registry = s.registry := by
  induction h with
  | refl => rfl
  | tail _ hlast ih =>
    rw [← ih]
    cases hlast <;> rfl

theorem moves_put (h : n < s.maps.length → Edits A P (s.mapAt n) d) : Moves A P s (s.put n d) := by
  rcases Nat.lt_or_ge n s.maps.length with hn | hn
  · induction h hn with
    | refl => rw [put_mapAt]
    | @tail c d _ hlast ih =>
      have hmap : (s.put n c).mapAt n = c := mapAt_put hn
      rw [← put_put s n c d]
      exact (ih fun _ => by assumption).tail (.edit _ n d (hmap.symm ▸ hlast))
  · rw [put_of_ge hn]

theorem moves_refresh (s : Session) : Moves A P s s.refresh := by
  have hrounds (k : Nat) (s : Session) : Moves A P s { s with maps := refreshRounds k s.maps } := by
    induction k generalizing s with
    | zero => exact .refl
    | succ k ih => exact ReflTransGen.head (.round s) (ih { s with maps := refreshRound s.maps })
  unfold refresh
  split
  · exact hrounds s.maps.length s
  · exact .refl

theorem moves_changed {r : Except ConfigError (Answer × ConfigMap)}
    (h : ∀ a d, r = .ok (a, d) → Edits A P (s.mapAt n) d) : Moves A P s (s.changed n r).session := by
  cases r with
  | error e => exact .refl
  | ok ad => exact moves_put fun _ => h ad.1 ad.2 rfl

/-- A change whose result is made into an answer. -/
theorem moves_changed_map {α : Type} {r : Except ConfigError α} {f : α → Answer × ConfigMap}
    (h : ∀ x, r = .ok x → Edits A P (s.mapAt n) (f x).2) : Moves A P s (s.changed n (r.map f)).session := by
  refine moves_changed fun a d hd => ?_
  obtain ⟨x, hx, heq⟩ := map_eq_ok.mp hd
  have := h x hx
  rwa [heq] at this

theorem moves_making {name : String} {made : Logged ConfigMap}
    (h : ∀ d, made.result = .ok d → ∃ r, r.keys = s.registry.keys ∧ Edits A P (empty r) d) :
    Moves A P s (s.making name made).session := by
  unfold making
  split
  · rename_i d hd
    obtain ⟨r, hr, hedits⟩ := h d hd
    exact .single (.bind s name d r hr hedits)
  · exact .refl

variable (H : SessionHereditary A P)
include H

theorem moves_assignAll (hs : s.Holds A P) {as : List Assignment} (ha : ∀ a ∈ as, a.Supplies P) :
    Moves A P s (s.assignAll n as).1 := by
  induction as generalizing s with
  | nil => exact .refl
  | cons a as ih =>
    obtain ⟨hfirst, hrest⟩ := List.forall_mem_cons.mp ha
    have hnow : (s.refreshAssignment a).Supplies P := by
      cases a with
      | entry k v => exact H.refreshed s.maps v hs.entries hfirst
      | element v => exact H.refreshed s.maps v hs.entries hfirst
      | failure e => trivial
    unfold assignAll
    split
    · rename_i d hd
      have hput : Moves A P s (s.put n d) := moves_put fun _ => edits_assign H.toHereditary hnow hd
      have hmoves := hput.trans (moves_refresh (s.put n d))
      exact hmoves.trans (ih (Moves.holds H hmoves hs) hrest)
    · exact .refl

theorem moves_update (hs : s.Holds A P) {v : Value} (hv : P v) : Moves A P s (s.update n v).session :=
  moves_assignAll H hs (assignments_supply H.toHereditary hv)

/-- What stands at the end of a path has the property, if it is no map. -/
theorem supplied_follow (hs : s.Holds A P) {path : List Value} {t : Target} (ht : ∀ v, t = .part v → P v)
    {v : Value} (h : s.follow path t = .ok (.part v)) : P v := by
  have hof {x : Value} (hx : P x) : ∀ v, Target.of x = .part v → P v := by
    intro v hv
    unfold Target.of at hv
    split at hv
    · cases hv
    · cases hv
      exact hx
  -- On the path. Below a map it goes on with what the session holds, whatever has led to the map.
  induction path generalizing t with
  | nil =>
    cases h
    exact ht v rfl
  | cons key path ih =>
    cases t with
    | map k =>
      obtain ⟨x, hx, h⟩ := bind_eq_ok.mp h
      refine ih (hof ?_) h
      obtain ⟨found, hf, hx⟩ := bind_eq_ok.mp hx
      obtain ⟨-, -, hf⟩ := bind_eq_ok.mp hf
      cases hf
      split at hx
      · rename_i w hw
        cases hx
        obtain ⟨e, he, -, rfl⟩ := Entries.mem_of_get? hw
        exact (hs.mapAt k).values e he
      · cases hx
    | part w =>
      unfold follow at h
      split at h
      · exact ih (hof (H.item w key _ (ht w rfl) (by assumption))) h
      · cases h

theorem moves_mutate (hs : s.Holds A P) {path : List Value} {m : Method} {args : List Value}
    (hv : ∀ v ∈ args, P v)
    (hk : ∀ k i c, s.appendTarget? n (.mutate path m args) = some (i, k) → s.maps[i]? = some c →
      c.isSealed = false → k.unhashable? = none → Entries.get? c.entries k = none → A k) :
    Moves A P s (s.mutate n path m args).session := by
  unfold mutate
  split
  · exact .refl
  · exact moves_update H hs (hv _ (by simp))
  · rename_i held hf _
    refine moves_put fun hlt => edits_applyMethod H.toHereditary (hs.mapAt held) hv ?_
    rintro k e rfl rfl
    rw [mapAt_of_lt hlt]
    exact hk k held _ (by simp [appendTarget?, hf]) (by simp [hlt])
  · rename_i v hf
    have hpart : P v := supplied_follow H hs (by simp) hf
    split
    · exact .single (.replace s _ _ fun next => H.change _ _ _ _ next hpart hv)
    · exact .refl

theorem edits_load (hf : ∀ v, P v) {r : Registry} {f : DocumentFormat} {source text : String} {d : ConfigMap}
    (h : Document.load r f source text = .ok d) : Edits A P (empty r) d := by
  obtain ⟨es, -, h⟩ := bind_eq_ok.mp h
  exact edits_ofEntries H.toHereditary (fun e _ => hf e.2) h

omit H in
theorem keys_transfer {r r' : Registry} {address : Nat} (h : r.transfer address = .ok r') : r'.keys = r.keys := by
  unfold Registry.transfer at h
  split at h
  · cases h
    rfl
  · split at h
    · cases h
    · cases h
      rfl

theorem edits_transfer (hf : ∀ v, P v) {stamp address : Nat} (h : (c.transfer stamp address).result = .ok d) :
    ∃ r, r.keys = c.registry.keys ∧ Edits A P (empty r) d := by
  unfold ConfigMap.transfer at h
  split at h
  · cases h
  · cases h
  · rename_i r _ hr
    exact ⟨r, keys_transfer hr, edits_rebuild H.toHereditary (fun e _ => hf e.2) h⟩

/-- A step is a sequence of moves. What it appends under has to be fit for a key. -/
theorem moves_perform (hs : s.Holds A P) (name : String) {step : Step} (hv : ∀ v ∈ step.values, P v)
    (hf : step.isForeign = true → ∀ v, P v)
    (hk : ∀ k i c, s.appendTarget? n step = some (i, k) → s.maps[i]? = some c →
      c.isSealed = false → k.unhashable? = none → Entries.get? c.entries k = none → A k) :
    Moves A P s (s.perform n name step).session := by
  have h := H.toHereditary
  have hc := hs.mapAt n
  have hr := hs.mapAt_registry n
  have hown {v : Value} (hp : P v) (es : Entries) : v.mapping? = some es → ∀ e ∈ es, P e.2 := h.entry v es hp
  cases step with
  | make v =>
    exact moves_making fun d hd => ⟨s.registry, rfl, edits_ofValue h (hown (hv v (by simp [Step.values]))) hd⟩
  | set k v => exact moves_changed_map fun d hd => edits_set h (hv v (by simp [Step.values])) hd
  | assign k v => exact moves_changed_map fun d hd => edits_set h (hv v (by simp [Step.values])) hd
  | remove k => exact moves_changed_map fun d hd => edits_remove hd
  | pop k d? => exact moves_changed_map fun x hx => edits_pop hx
  | popFirst => exact moves_changed_map fun x hx => edits_popFirst hx
  | setDefault k d => exact moves_changed_map fun x hx => edits_setDefault h (hv d (by simp [Step.values])) hx
  | update v => exact moves_update H hs (hv v (by simp [Step.values]))
  | clear => exact moves_changed_map fun d hd => edits_clear hd
  | append k e =>
    refine moves_put fun hn => edits_append h hc (hv e (by simp [Step.values])) ?_
    rw [mapAt_of_lt hn]
    exact hk k n _ rfl (by simp [hn])
  | close collect => exact moves_changed_map fun d hd => edits_toSealed hd
  | copy => exact moves_making fun d hd => ⟨_, hr, edits_copy h hc hd⟩
  | deepCopy => exact moves_making fun d hd => ⟨_, hr, edits_deepCopy h hc hd⟩
  | transfer address =>
    refine moves_making fun d hd => ?_
    obtain ⟨r, hkeys, hedits⟩ := edits_transfer H (hf rfl) hd
    exact ⟨r, by rw [hkeys, hr], hedits⟩
  | merge base overlay =>
    refine moves_making fun d hd => ⟨s.registry, rfl, edits_merge h (hown (hv base ?_)) (hown (hv overlay ?_)) hd⟩
    · simp [Step.values]
    · simp [Step.values]
  | mergeLayers layers => exact moves_making fun d hd => ⟨s.registry, rfl, edits_mergeLayers h hv hd⟩
  | call t positional named =>
    refine moves_put fun _ => edits_call h hc (fun x hx => ?_) (fun e he => ?_)
    · exact hv x (List.mem_append_left _ hx)
    · exact hv e.2 (List.mem_append_right _ (List.mem_map_of_mem he))
  | mutate path m args => exact moves_mutate H hs hv hk
  | read format text =>
    refine moves_making fun d hd => ⟨s.registry, rfl, ?_⟩
    obtain ⟨f, -, hd⟩ := bind_eq_ok.mp hd
    exact edits_load H (hf rfl) hd
  | roundTrip format =>
    refine moves_making fun d hd => ⟨s.registry, rfl, ?_⟩
    obtain ⟨f, -, hd⟩ := bind_eq_ok.mp hd
    obtain ⟨text, -, hd⟩ := bind_eq_ok.mp hd
    exact edits_load H (hf rfl) hd
  -- All other steps only read.
  | _ => exact .refl

theorem moves_run (hs : s.Holds A P) {name bound : String} {step : Step} {e : Effect}
    (hv : ∀ v ∈ step.values, P v) (hf : step.isForeign = true → ∀ v, P v)
    (hk : ∀ n k i c, s.number? name = some n → s.appendTarget? n step = some (i, k) → s.maps[i]? = some c →
      c.isSealed = false → k.unhashable? = none → Entries.get? c.entries k = none → A k)
    (h : s.run name bound step = some e) : Moves A P s e.session := by
  obtain ⟨n, hn, rfl⟩ := Option.map_eq_some_iff.mp h
  have hperform := moves_perform (n := n) H hs bound hv hf (hk n · · · hn)
  exact (hperform.tail (.label _)).trans (moves_refresh _)

end Session
end TopologyConfig
