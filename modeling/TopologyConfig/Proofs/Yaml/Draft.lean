import TopologyConfig.Proofs.ConfigMap.Basic
import TopologyConfig.Yaml.Draft

/-!
The faults of a draft. Going through the levels of a draft stops at one of its faults if it has any, so a draft passes
the check exactly if it has none.
-/
namespace TopologyConfig.Yaml.Draft

def isCollection : Draft → Bool
  | failed _ | ready _ => false
  | _ => true

/-- A key has the fault of its scalar, or the one of being a collection. -/
def keyFaults : Draft → List Fault
  | failed f => [f]
  | ready _ => []
  | _ => [.malformed]

mutual

/-- The faults of all parts. -/
def faults : Draft → List Fault
  | failed f => [f]
  | ready _ => []
  | list items => faultsOf items
  | map es => entryFaults es
  | set es => entryFaults es
  | pairs es => pairFaults es
  | broken parts f => faultsOf parts ++ [f]

def faultsOf : List Draft → List Fault
  | [] => []
  | d :: ds => faults d ++ faultsOf ds

def entryFaults : List (Draft × Draft) → List Fault
  | [] => []
  | (k, v) :: es => keyFaults k ++ faults v ++ entryFaults es

def pairFaults : List (Draft × Draft) → List Fault
  | [] => []
  | (k, v) :: es => faults k ++ faults v ++ pairFaults es

end

theorem faultsOf_eq_flatMap (ds : List Draft) : faultsOf ds = ds.flatMap faults := by
  induction ds with
  | nil => rfl
  | cons d ds ih => rw [faultsOf, ih, List.flatMap_cons]

theorem entryFaults_eq_flatMap (es : List (Draft × Draft)) :
    entryFaults es = es.flatMap (fun e => keyFaults e.1 ++ faults e.2) := by
  induction es with
  | nil => rfl
  | cons e es ih => rw [entryFaults, ih, List.flatMap_cons]

theorem pairFaults_eq_flatMap (es : List (Draft × Draft)) :
    pairFaults es = (es.flatMap (fun e => [e.1, e.2])).flatMap faults := by
  induction es with
  | nil => rfl
  | cons e es ih => simp [pairFaults, ih]

theorem depth_le_depthOf {ds : List Draft} {d : Draft} (h : d ∈ ds) : d.depth ≤ depthOf ds := by
  induction ds with
  | nil => exact absurd h List.not_mem_nil
  | cons x ds ih =>
    rw [depthOf]
    rcases List.mem_cons.mp h with rfl | h
    · exact Nat.le_max_left _ _
    · exact Nat.le_trans (ih h) (Nat.le_max_right _ _)

theorem depth_le_entriesDepth {es : List (Draft × Draft)} {e : Draft × Draft} (h : e ∈ es) :
    e.1.depth ≤ entriesDepth es ∧ e.2.depth ≤ entriesDepth es := by
  induction es with
  | nil => exact absurd h List.not_mem_nil
  | cons x es ih =>
    obtain ⟨k, v⟩ := x
    rw [entriesDepth]
    rcases List.mem_cons.mp h with rfl | h
    · dsimp only
      omega
    · have := ih h
      omega

/-- Of the given faults one was met, or they are those of the collections that are left, of at most `n` levels. -/
def Meets (n : Nat) (fs : List Fault) : Except Fault (List Draft) → Prop
  | .error f => f ∈ fs
  | .ok ds => (∀ d ∈ ds, d.isCollection = true ∧ d.depth ≤ n) ∧ ∀ f, f ∈ fs ↔ ∃ d ∈ ds, f ∈ d.faults

section

variable {n : Nat}

theorem meets_meet {d : Draft} (h : d.depth ≤ n) : Meets n d.faults (meet d) := by
  cases d with
  | failed f => exact List.mem_singleton_self f
  | ready v => exact ⟨by simp, by simp [faults]⟩
  | _ => exact ⟨by simpa [isCollection] using h, by simp⟩

theorem meets_meetEntry {e : Draft × Draft} (h : e.2.depth ≤ n) :
    Meets n (keyFaults e.1 ++ faults e.2) (meetEntry e) := by
  obtain ⟨k, v⟩ := e
  cases k with
  | failed f => exact List.mem_append_left _ (List.mem_singleton_self f)
  | ready w => exact meets_meet h
  | _ => exact List.mem_append_left _ (List.mem_singleton_self _)

theorem meets_mapM {α : Type} {g : α → Except Fault (List Draft)} {fs : α → List Fault} {xs : List α}
    (h : ∀ x ∈ xs, Meets n (fs x) (g x)) :
    Meets n (xs.flatMap fs) (do pure (← xs.mapM g).flatten) := by
  induction xs with
  | nil => exact ⟨by simp, by simp⟩
  | cons x xs ih =>
    obtain ⟨hx, hxs⟩ := List.forall_mem_cons.mp h
    have hrest := ih hxs
    rw [List.mapM_cons]
    cases hg : g x with
    | error f =>
      rw [hg] at hx
      exact List.mem_append_left _ hx
    | ok ds =>
      rw [hg] at hx
      obtain ⟨hds, hfs⟩ := hx
      cases hm : xs.mapM g with
      | error f =>
        rw [hm] at hrest
        exact List.mem_append_right _ hrest
      | ok dss =>
        rw [hm] at hrest
        obtain ⟨hdss, hfss⟩ := hrest
        refine ⟨fun d hd => ?_, fun f => ?_⟩
        · exact (List.mem_append.mp hd).elim (hds d) (hdss d)
        · rw [List.flatMap_cons, List.mem_append, hfs f, hfss f]
          simp [or_and_right, exists_or]

/-- Entering a collection meets a fault of its parts, or leaves the collections among them. -/
theorem meets_enter {d : Draft} (hd : d.isCollection = true) (h : d.depth ≤ n + 1) : Meets n d.faults d.enter := by
  cases d with
  | failed f => cases hd
  | ready v => cases hd
  | list items =>
    rw [faults, faultsOf_eq_flatMap]
    rw [depth] at h
    exact meets_mapM fun d hd => meets_meet (Nat.le_trans (depth_le_depthOf hd) (Nat.le_of_succ_le_succ h))
  | map es =>
    rw [faults, entryFaults_eq_flatMap]
    rw [depth] at h
    exact meets_mapM fun e he => meets_meetEntry (Nat.le_trans (depth_le_entriesDepth he).2 (Nat.le_of_succ_le_succ h))
  | set es =>
    rw [faults, entryFaults_eq_flatMap]
    rw [depth] at h
    exact meets_mapM fun e he => meets_meetEntry (Nat.le_trans (depth_le_entriesDepth he).2 (Nat.le_of_succ_le_succ h))
  | pairs es =>
    rw [faults, pairFaults_eq_flatMap]
    rw [depth] at h
    refine meets_mapM fun d hd => meets_meet (Nat.le_trans ?_ (Nat.le_of_succ_le_succ h))
    obtain ⟨e, he, hmem⟩ := List.mem_flatMap.mp hd
    have hdepth := depth_le_entriesDepth he
    simp only [List.mem_cons, List.not_mem_nil, or_false] at hmem
    rcases hmem with rfl | rfl
    · exact hdepth.1
    · exact hdepth.2
  | broken parts f =>
    rw [depth] at h
    have hparts : Meets n (parts.flatMap faults) (meetAll parts) :=
      meets_mapM fun d hd => meets_meet (Nat.le_trans (depth_le_depthOf hd) (Nat.le_of_succ_le_succ h))
    rw [faults, faultsOf_eq_flatMap, enter]
    cases hm : meetAll parts with
    | error g =>
      rw [hm] at hparts
      exact List.mem_append_left _ hparts
    | ok ds => exact List.mem_append_right _ (List.mem_singleton_self f)

/-- Going through the levels stops at a fault exactly if there is one. -/
theorem checkLevels_spec (fuel : Nat) : ∀ level : List Draft, (∀ d ∈ level, d.isCollection = true ∧ d.depth ≤ fuel) →
    match checkLevels fuel level with
    | .error f => ∃ d ∈ level, f ∈ d.faults
    | .ok () => ∀ d ∈ level, d.faults = [] := by
  induction fuel with
  | zero =>
    intro level hlevel d hd
    have hpos : 0 < d.depth := by
      cases d <;> simp [depth]
    have := (hlevel d hd).2
    omega
  | succ fuel ih =>
    intro level hlevel
    have hmeets := meets_mapM (n := fuel) fun d hd => meets_enter (hlevel d hd).1 (hlevel d hd).2
    rw [checkLevels]
    cases hm : level.mapM enter with
    | error f =>
      rw [hm] at hmeets
      exact List.mem_flatMap.mp hmeets
    | ok next =>
      rw [hm] at hmeets
      obtain ⟨hnext, hfaults⟩ := hmeets
      have hrest := ih next.flatten hnext
      simp only [bind, Except.bind, pure, Except.pure]
      by_cases hempty : next.flatten.isEmpty = true
      · rw [if_pos hempty]
        have hnil : next.flatten = [] := by simpa using hempty
        rw [hnil] at hfaults
        intro d hd
        refine List.eq_nil_iff_forall_not_mem.mpr fun f hf => ?_
        simpa using (hfaults f).mp (List.mem_flatMap.mpr ⟨d, hd, hf⟩)
      · rw [if_neg hempty]
        cases hc : checkLevels fuel next.flatten with
        | error f =>
          rw [hc] at hrest
          exact List.mem_flatMap.mp ((hfaults f).mpr hrest)
        | ok u =>
          rw [hc] at hrest
          intro d hd
          refine List.eq_nil_iff_forall_not_mem.mpr fun f hf => ?_
          obtain ⟨d', hd', hf'⟩ := (hfaults f).mp (List.mem_flatMap.mpr ⟨d, hd, hf⟩)
          simp [hrest d' hd'] at hf'

end

/-- The check finds a fault of the draft, unless there is none. -/
theorem check_spec (d : Draft) :
    match d.check with
    | .error f => f ∈ d.faults
    | .ok () => d.faults = [] := by
  have hmeets := meets_meet (Nat.le_refl d.depth)
  rw [check]
  cases hm : meet d with
  | error f =>
    rw [hm] at hmeets
    exact hmeets
  | ok level =>
    rw [hm] at hmeets
    obtain ⟨hlevel, hfaults⟩ := hmeets
    have hrest := checkLevels_spec d.depth level hlevel
    simp only [bind, Except.bind]
    cases hc : checkLevels d.depth level with
    | error f =>
      rw [hc] at hrest
      exact (hfaults f).mpr hrest
    | ok u =>
      rw [hc] at hrest
      refine List.eq_nil_iff_forall_not_mem.mpr fun f hf => ?_
      obtain ⟨d', hd', hf'⟩ := (hfaults f).mp hf
      simp [hrest d' hd'] at hf'

theorem check_eq_ok_iff {d : Draft} : d.check = .ok () ↔ d.faults = [] := by
  have hspec := check_spec d
  constructor
  · intro h
    rw [h] at hspec
    exact hspec
  · intro h
    cases hc : d.check with
    | ok u => rfl
    | error f =>
      rw [hc] at hspec
      simp [h] at hspec

theorem mem_faults_of_check {d : Draft} {f : Fault} (h : d.check = .error f) : f ∈ d.faults := by
  have hspec := check_spec d
  rwa [h] at hspec

end TopologyConfig.Yaml.Draft
