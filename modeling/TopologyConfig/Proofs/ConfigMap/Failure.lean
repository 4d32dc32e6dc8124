import TopologyConfig.Proofs.ConfigMap.Calls

/-!
Operations on one map that fail. Of those that leave a map behind only `append` can fail after it has stored something,
and only because it cannot write the message about it.
-/
namespace TopologyConfig

open Value

namespace ConfigMap

variable {c d : ConfigMap} {key entry v : Value} {e : ConfigError}

/-- An append under the key stores its entry and then fails: the key has no text for the message. -/
structure FailsLate (c : ConfigMap) (key : Value) : Prop where
  isOpen : c.isSealed = false
  hashable : key.unhashable? = none
  unwritable : key.isWritable = false

theorem FailsLate.append (h : c.FailsLate key) (entry : Value) :
    c.append key entry =
      ⟨{ c with entries := Entries.put key (.list (c.extended key entry)) c.entries },
        .failed (.numeral .tooLongToWrite)⟩ := by
  have hnone : entryViolation? c.registry key entry = none := by
    cases key with
    | str s => cases h.unwritable
    | _ => rfl
  have hplain : key.plain = .error .tooLongToWrite := by rw [plain, h.unwritable, if_neg Bool.false_ne_true]
  simp only [ConfigMap.append, h.isOpen, hashable_eq_ok_iff.mpr h.hashable, hnone, appendRecord, hplain,
    Bool.false_eq_true, if_false]

theorem after_append_of_error (h : (c.append key entry).outcome.result = .error e) :
    (c.append key entry).after = c ∨ c.FailsLate key := by
  unfold ConfigMap.append at h ⊢
  split at h
  · next hs => exact Or.inl (by rw [if_pos hs]; rfl)
  · next ho =>
    rw [if_neg ho]
    cases hh : hashable key with
    | error e => exact Or.inl rfl
    | ok u =>
      rw [hh] at h
      dsimp only at h ⊢
      cases hv : entryViolation? c.registry key entry with
      | some x =>
        dsimp only
        exact Or.inl (by split <;> rfl)
      | none =>
        rw [hv] at h
        refine Or.inr ⟨by simpa using ho, hashable_eq_ok_iff.mp hh, ?_⟩
        by_contra hw
        have hplain : key.plain = .ok key.plainText := by rw [plain, if_pos (by simpa using hw)]
        simp [appendRecord, hplain] at h

theorem after_ofSet_of_error {x : Except ConfigError ConfigMap} (h : (c.ofSet x).outcome.result = .error e) :
    (c.ofSet x).after = c := by
  cases x with
  | ok d => cases h
  | error e => rfl

theorem after_perform_of_error {t : TypedCall} {args : List Value} (h : (c.perform t args).outcome.result = .error e) :
    (c.perform t args).after = c := by
  cases t with
  | add a =>
    rw [perform] at h ⊢
    cases ha : a.entry args with
    | error e => rfl
    | ok entry =>
      rw [ha] at h
      rcases after_append_of_error h with hafter | hlate
      · exact hafter
      -- The keys of the accumulators are texts.
      · cases hlate.unwritable
  | assign | assignAny | identify => exact after_ofSet_of_error h

theorem after_call_of_error {t : TypedCall} {positional : List Value} {named : List (String × Value)}
    (h : (c.call t positional named).outcome.result = .error e) : (c.call t positional named).after = c := by
  unfold call at h ⊢
  split at h
  · exact after_perform_of_error h
  · rfl

theorem after_changed_of_error {x : Except ConfigError (Value × ConfigMap)}
    (h : (MethodOutcome.changed c x).result = .error e) : (MethodOutcome.changed c x).after = c := by
  cases x with
  | ok d => cases h
  | error e => rfl

theorem after_applyBound_of_error {m : Method} {args : List Value} (ha : m ≠ .append) (hu : m ≠ .update)
    (h : (c.applyBound m args).result = .error e) : (c.applyBound m args).after = c := by
  cases m with
  | append => exact absurd rfl ha
  | update => exact absurd rfl hu
  | setItem | deleteItem | pop | popitem | setdefault | clear => exact after_changed_of_error h
  | _ => rfl

theorem after_applyBound_append_of_error (h : (c.applyBound .append [key, entry]).result = .error e) :
    (c.applyBound .append [key, entry]).after = c ∨ c.FailsLate key := by
  have happend : (c.append key entry).outcome.result.map (fun _ => (c.append key entry).after.asLayer) = .error e := h
  cases hr : (c.append key entry).outcome.result with
  | ok u => simp [hr, Except.map] at happend
  | error f => exact after_append_of_error hr

/-- The method `update` takes one argument at most. -/
theorem after_applyMethod_update {args : List Value} (h : 2 ≤ args.length) :
    (c.applyMethod .update args).after = c := by
  match args, h with
  | [_, _], _ => rfl
  | _ :: _ :: _ :: _, _ =>
    simp [applyMethod, Method.operandMisuse?, Method.operands?, signatureOf?, Signature.bind, Signature.bindAllNamed,
      bind, Except.bind, MethodOutcome.failed]

theorem after_applyMethod_of_error {m : Method} {args : List Value} (hm : m = .update → args.length ≠ 1)
    (h : (c.applyMethod m args).result = .error e) :
    (c.applyMethod m args).after = c ∨ ∃ key entry, m = .append ∧ args = [key, entry] ∧ c.FailsLate key := by
  by_cases hu : m = .update
  · subst hu
    match args, hm rfl with
    | [], _ => cases h
    | [_], hlength => exact absurd rfl hlength
    | _ :: _ :: _, _ => exact Or.inl (after_applyMethod_update (by simp))
  · unfold applyMethod at h ⊢
    split at h
    · exact Or.inl rfl
    · next hs =>
      refine Or.inl (after_applyBound_of_error ?_ hu h)
      rintro rfl
      cases hs
    · next hs =>
      split at h
      · next hb =>
        by_cases ha : m = .append
        · subst ha
          obtain ⟨key, entry, rfl, rfl⟩ := bind_append hs hb
          exact (after_applyBound_append_of_error h).imp_right fun hlate => ⟨key, entry, rfl, rfl, hlate⟩
        · exact Or.inl (after_applyBound_of_error ha hu h)
      · exact Or.inl rfl

end ConfigMap
end TopologyConfig
