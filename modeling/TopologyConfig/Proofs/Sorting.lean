import TopologyConfig.Sorting

/-!
Sorting brings in nothing new: whether it succeeds or fails, every item that it leaves behind was there before.
Whatever all items of the list satisfy passes through each stage.
-/
namespace TopologyConfig.Sorting

variable {α β γ ε : Type} {p : α → Prop} (less : α → α → Except ε Bool)

/-- A result satisfies one property, and what a failure leaves behind another. -/
def Outcome (left : β → Prop) (right : γ → Prop) : Except (ε × β) γ → Prop
  | .ok c => right c
  | .error (_, b) => left b

section

variable {δ : Type} {left : β → Prop} {right : γ → Prop} {next : δ → Prop}

theorem Outcome.bind {x : Except (ε × β) γ} {f : γ → Except (ε × β) δ} (hx : Outcome left right x)
    (hf : ∀ c, right c → Outcome left next (f c)) : Outcome left next (x >>= f) := by
  cases x with
  | error e => exact hx
  | ok c => exact hf c hx

/-- What stands by in case of a failure. -/
theorem outcome_mapError {x : Except ε γ} {b : β} (hb : left b) :
    Outcome left (fun _ => True) (x.mapError (·, b)) := by
  cases x with
  | error e => exact hb
  | ok c => trivial

theorem Outcome.mapError {x : Except (ε × β) γ} {f : β → δ} (hx : Outcome left right x)
    (hf : ∀ b, left b → next (f b)) : Outcome next right (x.mapError fun (e, b) => (e, f b)) := by
  cases x with
  | error e => exact hf e.2 hx
  | ok c => exact hx

end

/-- All items of the list have the property. -/
abbrev Among (p : α → Prop) (xs : List α) : Prop := ∀ x ∈ xs, p x

theorem among_append {xs ys : List α} : Among p (xs ++ ys) ↔ Among p xs ∧ Among p ys := List.forall_mem_append

theorem among_take {xs : List α} (h : Among p xs) (n : Nat) : Among p (xs.take n) :=
  fun x hx => h x (List.mem_of_mem_take hx)

theorem among_drop {xs : List α} (h : Among p xs) (n : Nat) : Among p (xs.drop n) :=
  fun x hx => h x (List.mem_of_mem_drop hx)

theorem among_reverse {xs : List α} (h : Among p xs) : Among p xs.reverse :=
  fun x hx => h x (List.mem_reverse.mp hx)

theorem among_arranged {xs : List α} (h : Among p xs) (e : End) : Among p (e.arranged xs) := by
  cases e with
  | front => exact h
  | back => exact among_reverse h

namespace Merge

/-- All items of the merge have the property. -/
structure Holds (p : α → Prop) (m : Merge α) : Prop where
  merged : Among p m.merged
  left : Among p m.left
  right : Among p m.right

variable {m : Merge α}

theorem holds_takeLeft (h : m.Holds p) (n : Nat) : (m.takeLeft n).Holds p :=
  ⟨among_append.mpr ⟨among_reverse (among_take h.left n), h.merged⟩, among_drop h.left n, h.right⟩

theorem holds_takeRight (h : m.Holds p) (n : Nat) : (m.takeRight n).Holds p :=
  ⟨among_append.mpr ⟨among_reverse (among_take h.right n), h.merged⟩, h.left, among_drop h.right n⟩

theorem among_items (h : m.Holds p) (e : End) (isDone : Bool) : Among p (m.items e isDone) := by
  have hmerged := among_reverse h.merged
  unfold items
  split
  · exact among_arranged (among_append.mpr ⟨among_append.mpr ⟨hmerged, h.right⟩, h.left⟩) e
  · exact among_arranged (among_append.mpr ⟨among_append.mpr ⟨hmerged, h.left⟩, h.right⟩) e

theorem holds_begin {xs ys : List α} (hx : Among p xs) (hy : Among p ys) (e : End) (patience : Nat) :
    (begin e patience xs ys).Holds p := by
  have hall : (Merge.mk [] (e.arranged xs) (e.arranged ys) patience (.steps true 0)).Holds p :=
    ⟨by simp [Among], among_arranged hx e, among_arranged hy e⟩
  cases e with
  | front => exact holds_takeRight hall 1
  | back => exact holds_takeLeft hall 1

theorem outcome_step (h : m.Holds p) (e : End) (fromLeft : Bool) (count : Nat) :
    Outcome (Holds p) (Holds p) ((m.step less e fromLeft count).mapError (·, m)) := by
  unfold step
  split
  · rename_i a left b right _ _
    cases leftFirst less e a b with
    | error err => exact h
    | ok isLeft =>
      cases isLeft with
      | true =>
        have := holds_takeLeft h 1
        exact ⟨this.merged, this.left, this.right⟩
      | false =>
        have := holds_takeRight h 1
        exact ⟨this.merged, this.left, this.right⟩
  · exact h

theorem outcome_unlessOver {f : Merge α → Except (ε × Merge α) (Merge α)} (h : m.Holds p) (e : End)
    (hf : Outcome (Holds p) (Holds p) (f m)) : Outcome (Holds p) (Holds p) (m.unlessOver e f) := by
  unfold unlessOver
  split
  · exact h
  · exact hf

theorem outcome_leap (h : m.Holds p) (e : End) : Outcome (Holds p) (Holds p) (m.leap less e) := by
  unfold leap
  split
  · exact h
  · refine (outcome_mapError h).bind fun n _ => ?_
    have hn := holds_takeLeft h n
    refine outcome_unlessOver hn e ?_
    have hone := holds_takeRight hn 1
    refine outcome_unlessOver hone e ?_
    split
    · exact hone
    · refine (outcome_mapError hone).bind fun k _ => ?_
      have hk := holds_takeRight hone k
      refine outcome_unlessOver hk e ?_
      have hlast := holds_takeLeft hk 1
      refine outcome_unlessOver hlast e ?_
      unfold paced
      split <;> exact ⟨hlast.merged, hlast.left, hlast.right⟩

theorem outcome_finish (h : m.Holds p) (e : End) (fuel : Nat) :
    Outcome (Holds p) (Holds p) (m.finish less e fuel) := by
  induction fuel generalizing m with
  | zero => exact h
  | succ fuel ih =>
    refine outcome_unlessOver h e ?_
    split
    · exact (outcome_step less h e _ _).bind fun m' hm' => ih hm'
    · exact (outcome_leap less h e).bind fun m' hm' => ih hm'

end Merge

theorem outcome_joined {xs ys : List α} (hx : Among p xs) (hy : Among p ys) (patience : Nat) :
    Outcome (Among p) (fun r => Among p r.1) (joined less patience xs ys) := by
  have hboth := among_append.mpr ⟨hx, hy⟩
  unfold joined
  split
  · refine (outcome_mapError hboth).bind fun n _ => ?_
    have hbefore := among_take hx n
    have hxs := among_drop hx n
    dsimp only
    split
    · exact among_append.mpr ⟨hbefore, hy⟩
    · have hrest := among_append.mpr ⟨among_append.mpr ⟨hbefore, hxs⟩, hy⟩
      refine (outcome_mapError hrest).bind fun k _ => ?_
      have hafter := among_drop hy (ys.length - k)
      have hys := among_take hy (ys.length - k)
      split
      · exact among_append.mpr ⟨among_append.mpr ⟨hbefore, hxs⟩, hafter⟩
      -- The merge may start at either end; its items are the same.
      · generalize (if (xs.drop n).length ≤ (ys.take (ys.length - k)).length then End.front else End.back) = e
        have hdone := Merge.outcome_finish less (Merge.holds_begin hxs hys e patience) e
          ((xs.drop n).length + (ys.take (ys.length - k)).length)
        split
        · rename_i m hm
          rw [hm] at hdone
          exact among_append.mpr ⟨among_append.mpr ⟨hbefore, Merge.among_items hdone e true⟩, hafter⟩
        · rename_i err m hm
          rw [hm] at hdone
          exact among_append.mpr ⟨among_append.mpr ⟨hbefore, Merge.among_items hdone e false⟩, hafter⟩
  · exact hboth

namespace Progress

/-- All items of all runs have the property. -/
def Holds (p : α → Prop) (q : Progress α) : Prop := ∀ r ∈ q.runs, Among p r.items

variable {q : Progress α}

theorem among_items (h : q.Holds p) : Among p q.items := by
  intro x hx
  obtain ⟨xs, hxs, hx⟩ := List.mem_flatten.mp hx
  obtain ⟨r, hr, rfl⟩ := List.mem_map.mp hxs
  exact h r (List.mem_reverse.mp hr) x hx

theorem outcome_mergeRuns {above below : List (Run α)} {x y : Run α} (ha : ∀ r ∈ above, Among p r.items)
    (hy : Among p y.items) (hx : Among p x.items) (hb : ∀ r ∈ below, Among p r.items) (patience : Nat) :
    Outcome (Among p) (Holds p) (mergeRuns less patience above y x below) := by
  have hjoined := outcome_joined less hx hy patience
  have hruns (xs : List α) (d : Nat) (hxs : Among p xs) : ∀ r ∈ above ++ ⟨xs, d⟩ :: below, Among p r.items :=
    List.forall_mem_append.mpr ⟨ha, List.forall_mem_cons.mpr ⟨hxs, hb⟩⟩
  unfold mergeRuns
  split
  · rename_i xs n hok
    rw [hok] at hjoined
    exact hruns xs x.depth hjoined
  · rename_i err xs herr
    rw [herr] at hjoined
    exact among_items (hruns xs 0 hjoined)

theorem outcome_mergeDeeper (h : q.Holds p) (depth fuel : Nat) :
    Outcome (Among p) (Holds p) (mergeDeeper less depth fuel q) := by
  induction fuel generalizing q with
  | zero => exact h
  | succ fuel ih =>
    unfold mergeDeeper
    split
    · rename_i y x below patience hfuel
      obtain ⟨hy, hx, hb⟩ : Among p y.items ∧ Among p x.items ∧ ∀ r ∈ below, Among p r.items := by
        simpa [Holds, List.forall_mem_cons] using h
      split
      · refine (outcome_mergeRuns less (by simp) hy hx hb patience).bind fun q' hq' => ?_
        cases hfuel
        exact ih hq'
      · exact h
    · exact h

theorem outcome_mergeAll (h : q.Holds p) (fuel : Nat) :
    Outcome (Among p) (Holds p) (mergeAll less fuel q) := by
  induction fuel generalizing q with
  | zero => exact h
  | succ fuel ih =>
    unfold mergeAll
    split
    · rename_i z y x below patience hfuel
      obtain ⟨hz, hy, hx, hb⟩ :
          Among p z.items ∧ Among p y.items ∧ Among p x.items ∧ ∀ r ∈ below, Among p r.items := by
        simpa [Holds, List.forall_mem_cons] using h
      cases hfuel
      split
      · exact (outcome_mergeRuns less (by simpa using hz) hy hx hb patience).bind fun q' hq' => ih hq'
      · refine (outcome_mergeRuns less (by simp) hz hy ?_ patience).bind fun q' hq' => ih hq'
        exact List.forall_mem_cons.mpr ⟨hx, hb⟩
    · rename_i y x patience _
      obtain ⟨hy, hx⟩ : Among p y.items ∧ Among p x.items := by
        simpa [Holds, List.forall_mem_cons] using h
      exact outcome_mergeRuns less (by simp) hy hx (by simp) patience
    · exact h

theorem outcome_push (h : q.Holds p) {xs : List α} (hx : Among p xs) (total : Nat) :
    Outcome (Among p) (Holds p) (q.push less total xs) := by
  unfold push
  split
  · simpa [Outcome, Holds] using hx
  · rename_i y _ _
    have hdeeper := outcome_mergeDeeper less h
      (depth q.start y.items.length xs.length total) q.runs.length
    refine (hdeeper.mapError fun ys hys => among_append.mpr ⟨hys, hx⟩).bind fun q' hq' => ?_
    split
    · simpa [Outcome, Holds] using hx
    · rename_i below hr
      rw [Holds, hr] at hq'
      obtain ⟨hy, hb⟩ := List.forall_mem_cons.mp hq'
      exact List.forall_mem_cons.mpr ⟨hx, List.forall_mem_cons.mpr ⟨hy, hb⟩⟩

end Progress

theorem among_firstRun {xs run : List α} {n : Nat} (hx : Among p xs) (h : firstRun less xs = .ok (run, n)) :
    Among p run := by
  unfold firstRun at h
  split at h
  · cases h
    exact hx
  · cases h
    exact hx
  · rename_i x y rest
    cases hless : less y x with
    | error e => simp [hless, bind, Except.bind] at h
    | ok isLess =>
      cases isLess with
      | true =>
        cases hd : descendingRun less y rest with
        | error e => simp [hless, hd, bind, Except.bind] at h
        | ok k =>
          simp only [hless, hd, bind, Except.bind, if_true] at h
          cases h
          exact among_reverse (among_take hx _)
      | false =>
        cases hd : ascendingRun less y rest with
        | error e => simp [hless, hd, bind, Except.bind] at h
        | ok k =>
          simp only [hless, hd, bind, Except.bind, Bool.false_eq_true, if_false] at h
          cases h
          exact among_take hx _

theorem outcome_insertAll {sorted xs : List α} (hs : Among p sorted) (hx : Among p xs) :
    Outcome (Among p) (Among p) (insertAll less sorted xs) := by
  induction xs generalizing sorted with
  | nil => exact hs
  | cons x xs ih =>
    obtain ⟨hfirst, hrest⟩ := List.forall_mem_cons.mp hx
    refine (outcome_mapError (among_append.mpr ⟨hs, hx⟩)).bind fun n _ => ?_
    refine ih (among_append.mpr ⟨among_take hs n, ?_⟩) hrest
    exact List.forall_mem_cons.mpr ⟨hfirst, among_drop hs n⟩

theorem outcome_nextRun {xs : List α} (hx : Among p xs) (least : Nat) :
    Outcome (Among p) (fun r => Among p r.1 ∧ Among p r.2) (nextRun less least xs) := by
  unfold nextRun
  cases hr : firstRun less xs with
  | error e => exact hx
  | ok found =>
    obtain ⟨run, n⟩ := found
    have hbehind := among_drop hx (max n least)
    have hinsert := outcome_insertAll less (among_firstRun less hx hr)
      (among_take (among_drop hx n) (least - n))
    refine (hinsert.mapError fun ys hys => among_append.mpr ⟨hys, hbehind⟩).bind fun run hrun => ?_
    exact ⟨hrun, hbehind⟩

theorem outcome_sortOn {xs : List α} {q : Progress α} (hq : q.Holds p) (hx : Among p xs)
    (total least fuel : Nat) : Outcome (Among p) (Among p) (sortOn less total least fuel q xs) := by
  -- Whether the fuel or the items run out, the runs found so far are merged.
  have hfinish (q : Progress α) (hq : q.Holds p) (xs : List α) (hx : Among p xs) :
      Outcome (Among p) (Among p) (do
        let q ← (q.mergeAll less q.runs.length).mapError (fun f => (f.1, f.2 ++ xs))
        Except.ok (q.items ++ xs)) := by
    have hall := Progress.outcome_mergeAll less hq q.runs.length
    refine (hall.mapError fun ys hys => among_append.mpr ⟨hys, hx⟩).bind fun q' hq' => ?_
    exact among_append.mpr ⟨Progress.among_items hq', hx⟩
  induction fuel generalizing q xs with
  | zero => exact hfinish q hq xs hx
  | succ fuel ih =>
    cases xs with
    | nil => exact hfinish q hq [] hx
    | cons x xs =>
      have hnext := outcome_nextRun less hx least
      refine (hnext.mapError fun ys hys => among_append.mpr ⟨Progress.among_items hq, hys⟩).bind ?_
      rintro ⟨run, behind⟩ ⟨hrun, hbehind⟩
      have hpush := Progress.outcome_push less hq hrun total
      refine (hpush.mapError fun ys hys => among_append.mpr ⟨hys, hbehind⟩).bind fun q' hq' => ?_
      exact ih hq' hbehind

/-- Every item that sorting leaves behind was there before. -/
theorem outcome_sort {xs : List α} (hx : Among p xs) : Outcome (Among p) (Among p) (sort less xs) :=
  outcome_sortOn less (by simp [Progress.Holds]) hx _ _ _

end TopologyConfig.Sorting
