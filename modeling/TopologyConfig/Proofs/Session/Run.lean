import TopologyConfig.Proofs.Session.Move

/-!
Runs of a session: commands one after the other. What every command keeps holds in all sessions that are reached.
-/
namespace TopologyConfig

/-- A step with the name of the map that it acts on, and the name to which it binds a new map. -/
structure Command where
  name : String
  bound : String
  step : Step

namespace Session

/-- The session after a command, if the name of its map is bound. -/
def after (s : Session) (k : Command) : Option Session := (s.run k.name k.bound k.step).map (·.session)

/-- The session after some commands. -/
def afterAll (s : Session) (ks : List Command) : Option Session := ks.foldlM after s

variable {s s' : Session} {k : Command} {ks : List Command}

theorem afterAll_append (s : Session) (ks ls : List Command) :
    s.afterAll (ks ++ ls) = (s.afterAll ks).bind (·.afterAll ls) := by
  simp [afterAll, List.foldlM_append]

theorem afterAll_concat (s : Session) (ks : List Command) (k : Command) :
    s.afterAll (ks ++ [k]) = (s.afterAll ks).bind (·.after k) := by
  rw [afterAll_append]
  simp [afterAll]

/-- A property that every command of a run keeps is kept by the run. -/
theorem afterAll_induction {Q : Session → Prop} (h : s.afterAll ks = some s') (hs : Q s)
    (hstep : ∀ pre k post m m', ks = pre ++ k :: post → s.afterAll pre = some m → Q m → m.after k = some m' → Q m') :
    Q s' := by
  -- From the end: the last command acts on a session that has the property by induction.
  induction ks using List.reverseRecOn generalizing s' with
  | nil =>
    cases h
    exact hs
  | append_singleton ks k ih =>
    rw [afterAll_concat] at h
    obtain ⟨m, hm, hm'⟩ := Option.bind_eq_some_iff.mp h
    refine hstep ks k [] m s' rfl hm (ih hm fun pre k' post n n' heq hn hQ hn' => ?_) hm'
    exact hstep pre k' (post ++ [k]) n n' (by simp [heq]) hn hQ hn'

variable {A P : Value → Prop}

theorem moves_after (H : SessionHereditary A P) (hs : s.Holds A P) (hv : ∀ v ∈ k.step.values, P v)
    (hf : k.step.isForeign = true → ∀ v, P v)
    (hk : ∀ n key i c, s.number? k.name = some n → s.appendTarget? n k.step = some (i, key) →
      s.maps[i]? = some c → c.isSealed = false → key.unhashable? = none → Entries.get? c.entries key = none →
      A key)
    (h : s.after k = some s') : Moves A P s s' := by
  obtain ⟨e, he, rfl⟩ := Option.map_eq_some_iff.mp h
  exact moves_run H hs hv hf hk he

/-- Any property of keys that all texts have goes with no property of values. -/
theorem hereditary_of_keys (hA : ∀ s, A (.str s)) : SessionHereditary A (fun _ => True) := by
  constructor
  · constructor <;> simp [hA]
  all_goals simp

/-- Nothing is asked of the keys or of the values. -/
theorem moves_after_any (hs : s.Holds (fun _ => True) (fun _ => True)) (h : s.after k = some s') :
    Moves (fun _ => True) (fun _ => True) s s' :=
  moves_after (hereditary_of_keys fun _ => trivial) hs (by simp) (by simp) (by simp) h

/-- A whole run is a sequence of moves. -/
theorem moves_afterAll (hs : s.Holds (fun _ => True) (fun _ => True)) (h : s.afterAll ks = some s') :
    Moves (fun _ => True) (fun _ => True) s s' := by
  refine (afterAll_induction (Q := fun m => m.Holds (fun _ => True) (fun _ => True) ∧
    Moves (fun _ => True) (fun _ => True) s m) h ⟨hs, .refl⟩ fun pre k post m m' _ _ hm hm' => ?_).2
  have hmoves := moves_after_any hm.1 hm'
  exact ⟨Moves.holds (hereditary_of_keys fun _ => trivial) hmoves hm.1, hm.2.trans hmoves⟩

end Session
end TopologyConfig
