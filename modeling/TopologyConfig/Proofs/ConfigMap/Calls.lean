import TopologyConfig.ConfigMap.Methods
import TopologyConfig.Proofs.ConfigMap.Edit

/-!
Edits by typed calls and by methods. A call binds its arguments first, so what it stores is an argument, a
default or built from such; only `append` takes a key that is no text.
-/
namespace TopologyConfig

open Value Relation

variable {A P : Value → Prop}

namespace Signature

/-- The value of a parameter, and the one that it has if none is given, have the property. -/
def Supplies (P : Value → Prop) (b : Binding) : Prop :=
  (∀ v, b.2 = some v → P v) ∧ ∀ v, b.1.default? = some v → P v

theorem bindNamed_eq_ok {call name : String} {value : Value} {bs ds : List Binding}
    (h : bindNamed call name value bs = .ok ds) :
    ∃ xs p ys, bs = xs ++ (p, none) :: ys ∧ ds = xs ++ (p, some value) :: ys := by
  induction bs generalizing ds with
  | nil => cases h
  | cons b bs ih =>
    obtain ⟨p, held⟩ := b
    unfold bindNamed at h
    split at h
    · split at h
      · cases h
      · cases h
        exact ⟨[], p, bs, rfl, rfl⟩
    · obtain ⟨ds', hds, rfl⟩ := map_eq_ok.mp h
      obtain ⟨xs, q, ys, rfl, rfl⟩ := ih hds
      exact ⟨(p, held) :: xs, q, ys, rfl, rfl⟩

/-- Named arguments leave the parameter alone that has its value already. -/
theorem bindAllNamed_eq_ok {call : String} {b : Binding} {bs ds : List Binding} {named : List (String × Value)}
    (hb : b.2.isSome) (hs : ∀ d ∈ bs, Supplies P d) (hv : ∀ e ∈ named, P e.2)
    (h : bindAllNamed call (b :: bs) named = .ok ds) : ∃ es, ds = b :: es ∧ ∀ d ∈ es, Supplies P d := by
  induction named generalizing bs with
  | nil =>
    cases h
    exact ⟨bs, rfl, hs⟩
  | cons e named ih =>
    obtain ⟨hfirst, hrest⟩ := List.forall_mem_cons.mp hv
    obtain ⟨ds', hds, hrun⟩ := bind_eq_ok.mp h
    obtain ⟨xs, p, ys, heq, rfl⟩ := bindNamed_eq_ok hds
    cases xs with
    | nil =>
      cases heq
      cases hb
    | cons x xs =>
      obtain ⟨rfl, rfl⟩ : b = x ∧ bs = xs ++ (p, none) :: ys := by simpa using heq
      rw [List.cons_append] at hrun
      refine ih (fun d hd => ?_) hrest hrun
      rcases List.mem_append.mp hd with hd | hd
      · exact hs d (List.mem_append_left _ hd)
      · rcases List.mem_cons.mp hd with rfl | hd
        · have hp := hs (p, none) (by simp)
          exact ⟨fun v hv => by cases hv; exact hfirst, hp.2⟩
        · exact hs d (by simp [hd])

theorem supplies_bindPositional {ps : List Parameter} {vs : List Value}
    (hp : ∀ p ∈ ps, ∀ v, p.default? = some v → P v) (hv : ∀ v ∈ vs, P v) :
    ∀ b ∈ bindPositional ps vs, Supplies P b := by
  induction ps generalizing vs with
  | nil => simp [bindPositional]
  | cons p ps ih =>
    obtain ⟨hfirst, hrest⟩ := List.forall_mem_cons.mp hp
    cases vs with
    | nil =>
      exact List.forall_mem_cons.mpr ⟨⟨fun _ h => (nomatch h), hfirst⟩, ih hrest (by simp)⟩
    | cons v vs =>
      obtain ⟨hv, hvs⟩ := List.forall_mem_cons.mp hv
      exact List.forall_mem_cons.mpr ⟨⟨fun _ h => by cases h; exact hv, hfirst⟩, ih hrest hvs⟩

/-- What is bound behind the first argument came in as an argument or is a default. -/
theorem supplied_bind (hn : P .null) {s : Signature} {p : Parameter} {ps : List Parameter}
    (hs : s.parameters = p :: ps) (hp : ∀ p ∈ ps, ∀ v, p.default? = some v → P v) {self : Value}
    {positional bound : List Value} {named : List (String × Value)} (hv : ∀ v ∈ positional, P v)
    (he : ∀ e ∈ named, P e.2) (h : s.bind (self :: positional) named = .ok bound) :
    ∀ v ∈ bound.drop 1, P v := by
  obtain ⟨bs, hbs, h⟩ := bind_eq_ok.mp h
  rw [hs] at hbs
  obtain ⟨ds, rfl, hds⟩ := bindAllNamed_eq_ok rfl (supplies_bindPositional hp hv) he hbs
  split at h
  · cases h
  · split at h
    · cases h
      intro v hv
      rw [List.map_cons, List.drop_succ_cons, List.drop_zero] at hv
      obtain ⟨b, hb, rfl⟩ := List.mem_map.mp hv
      obtain ⟨hgiven, hdefault⟩ := hds b hb
      cases hgb : b.2 with
      | some w => simpa [hgb] using hgiven w hgb
      | none =>
        cases hdb : b.1.default? with
        | some w => simpa [hgb, hdb] using hdefault w hdb
        | none => simpa [hgb, hdb] using hn
    · cases h

end Signature

namespace ConfigMap

variable {c d : ConfigMap} {key v : Value} (H : Hereditary A P)
include H

theorem supplied_headD {xs : List Value} (hv : ∀ x ∈ xs, P x) : P (xs.headD .null) := by
  cases xs with
  | nil => exact H.leaf _ rfl
  | cons x xs => exact hv x List.mem_cons_self

theorem supplied_pluginIdentifier (hv : P v) : P v.pluginIdentifier := by
  unfold pluginIdentifier
  split
  · exact H.leaf _ rfl
  · exact hv

theorem supplied_entry {a : Accumulator} {args : List Value} (hv : ∀ x ∈ args, P x) (h : a.entry args = .ok v) :
    P v := by
  unfold Accumulator.entry at h
  split at h
  · rename_i klass serializer
    have hklass := supplied_pluginIdentifier H (hv klass (by simp))
    split at h
    · cases h
      exact hklass
    · obtain ⟨⟨⟩, hh, h⟩ := bind_eq_ok.mp h
      cases h
      refine H.map _ (by simp [Entries.Distinct]) fun e he => ?_
      cases List.mem_singleton.mp he
      refine ⟨hklass, ?_, supplied_pluginIdentifier H (hv _ (by simp))⟩
      exact hashable_eq_ok_iff.mp (mapError_eq_ok.mpr hh)
  · rename_i klass argument hint
    cases h
    refine H.map _ (by simp [Entries.Distinct, same_str_str]) fun e he => ?_
    simp only [List.mem_cons, List.not_mem_nil, or_false] at he
    rcases he with rfl | rfl | rfl
    · exact ⟨H.leaf _ rfl, rfl, supplied_pluginIdentifier H (hv klass (by simp))⟩
    · exact ⟨H.leaf _ rfl, rfl, hv hint (by simp)⟩
    · exact ⟨H.leaf _ rfl, rfl, hv argument (by simp)⟩
  · cases h
    exact supplied_pluginIdentifier H (supplied_headD H hv)

theorem edits_setChecked (hv : P v) (h : c.setChecked key v = .ok d) : Edits A P c d := by
  unfold setChecked at h
  split at h
  · split at h <;> cases h
  · obtain ⟨-, -, h⟩ := bind_eq_ok.mp h
    exact edits_set H hv h

omit H in
theorem edits_ofSet {r : Except ConfigError ConfigMap} (h : ∀ d, r = .ok d → Edits A P c d) :
    Edits A P c (c.ofSet r).after := by
  unfold ofSet
  split
  · exact h _ rfl
  · exact .refl

theorem edits_perform (hc : c.entries.Holds A P) {t : TypedCall} {args : List Value} (hv : ∀ x ∈ args, P x) :
    Edits A P c (c.perform t args).after := by
  cases t with
  | add a =>
    rw [perform]
    split
    · exact edits_append H hc (supplied_entry H hv (by assumption)) fun _ _ _ => H.name _
    · exact .refl
  | assign s =>
    refine edits_ofSet fun d hd => edits_setChecked H ?_ hd
    unfold Setter.value
    split
    · exact supplied_pluginIdentifier H (supplied_headD H hv)
    · exact supplied_headD H hv
  | assignAny =>
    refine edits_ofSet fun d hd => edits_setChecked H ?_ hd
    exact supplied_headD H fun x hx => hv x (List.mem_of_mem_drop hx)
  | identify => exact edits_ofSet fun d hd => by cases hd; exact .refl

omit H in
theorem parameters_call (t : TypedCall) : ∃ p ps, t.signature.parameters = p :: ps ∧
    ∀ p ∈ ps, ∀ v : Value, p.default? = some v → v.isLeaf = true := by
  cases t with
  | add a => cases a <;> exact ⟨_, _, rfl, by simp [isLeaf]⟩
  | assign s => exact ⟨_, _, rfl, by simp⟩
  | assignAny => exact ⟨_, _, rfl, by simp⟩
  | identify => exact ⟨_, _, rfl, by simp⟩

theorem edits_call (hc : c.entries.Holds A P) {t : TypedCall} {positional : List Value}
    {named : List (String × Value)} (hv : ∀ x ∈ positional, P x) (he : ∀ e ∈ named, P e.2) :
    Edits A P c (c.call t positional named).after := by
  unfold call
  split
  · obtain ⟨p, ps, hs, hleaf⟩ := parameters_call t
    refine edits_perform H hc ?_
    exact Signature.supplied_bind (H.leaf _ rfl) hs (fun p hp v hv => H.leaf v (hleaf p hp v hv)) hv he
      (by assumption)
  · exact .refl

omit H in
theorem edits_silent {r : Except ConfigError ConfigMap} (h : ∀ d, r = .ok d → Edits A P c d) :
    Edits A P c (MethodOutcome.silent c r).after := by
  cases r with
  | error e => exact .refl
  | ok d => exact h d rfl

omit H in
theorem edits_changed {r : Except ConfigError (Value × ConfigMap)} (h : ∀ v d, r = .ok (v, d) → Edits A P c d) :
    Edits A P c (MethodOutcome.changed c r).after := by
  cases r with
  | error e => exact .refl
  | ok vd => exact h vd.1 vd.2 rfl

theorem edits_applyBound (hc : c.entries.Holds A P) {m : Method} {args : List Value} (hv : ∀ x ∈ args, P x)
    (hk : m = .append → c.isSealed = false → (args.headD .null).unhashable? = none →
      Entries.get? c.entries (args.headD .null) = none → A (args.headD .null)) :
    Edits A P c (c.applyBound m args).after := by
  have hfirst := supplied_headD H hv
  have hsecond : P ((args.drop 1).headD .null) := supplied_headD H fun x hx => hv x (List.mem_of_mem_drop hx)
  cases m with
  | append => exact edits_append H hc hsecond (hk rfl)
  | setItem => exact edits_silent fun d hd => edits_set H hsecond hd
  | deleteItem => exact edits_silent fun d hd => edits_remove hd
  | pop => exact edits_changed fun v d hd => edits_pop hd
  | popitem =>
    refine edits_changed fun v d hd => ?_
    obtain ⟨⟨k, w, d'⟩, hpop, heq⟩ := map_eq_ok.mp hd
    cases heq
    exact edits_popFirst hpop
  | setdefault => exact edits_changed fun v d hd => edits_setDefault H hsecond hd
  | update => exact edits_update H hfirst
  | clear => exact edits_silent fun d hd => edits_clear hd
  | _ => exact .refl

omit H in
/-- The method `append` takes a key and an entry, no more and no less. -/
theorem bind_append {self : Value} {s : Signature} (hs : signatureOf? .append = some s) {args bound : List Value}
    (h : s.bind (self :: args) [] = .ok bound) : ∃ k e, args = [k, e] ∧ bound = [self, k, e] := by
  cases hs
  match args with
  | [] => cases h
  | [_] => cases h
  | [k, e] =>
    cases h
    exact ⟨k, e, rfl, rfl⟩
  | _ :: _ :: _ :: _ => simp [Signature.bind, Signature.bindAllNamed, bind, Except.bind] at h

omit H in
theorem parameters_method {m : Method} {s : Signature} (h : signatureOf? m = some s) :
    ∃ p ps, s.parameters = p :: ps ∧
      ∀ p ∈ ps, ∀ v : Value, p.default? = some v → v.isLeaf = true ∨ v = .tuple [] := by
  cases m <;> cases h <;> exact ⟨_, _, rfl, by simp [isLeaf, absentArgument]⟩

/-- A method edits the map. What `append` is given as a key has to be fit for one. -/
theorem edits_applyMethod (hc : c.entries.Holds A P) {m : Method} {args : List Value} (hv : ∀ x ∈ args, P x)
    (hk : ∀ k e, m = .append → args = [k, e] → c.isSealed = false → k.unhashable? = none →
      Entries.get? c.entries k = none → A k) :
    Edits A P c (c.applyMethod m args).after := by
  unfold applyMethod
  split
  · exact .refl
  · rename_i hs
    refine edits_applyBound H hc hv ?_
    rintro rfl
    cases hs
  · rename_i s _ hs
    split
    · rename_i bound hb
      obtain ⟨p, ps, hps, hdefault⟩ := parameters_method hs
      have hp : ∀ p ∈ ps, ∀ v, p.default? = some v → P v := fun p hp v hv => by
        rcases hdefault p hp v hv with hleaf | rfl
        · exact H.leaf v hleaf
        · exact H.tuple [] (by simp)
      refine edits_applyBound H hc (Signature.supplied_bind (H.leaf _ rfl) hps hp hv (by simp) hb) ?_
      rintro rfl
      obtain ⟨k, e, rfl, rfl⟩ := bind_append hs hb
      exact hk k e rfl rfl
    · exact .refl

end ConfigMap
end TopologyConfig
