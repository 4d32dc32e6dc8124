import TopologyConfig.Proofs.Sorting
import TopologyConfig.Proofs.Value.Proper
import TopologyConfig.Value.InPlace

/-!
Changes in place keep values proper: a list, map or set stays one of its kind, whatever method is applied to it, and
what is looked up in a proper value is proper.
-/
namespace TopologyConfig.Value

variable {count : Nat} {v k : Value}

namespace Change

variable {q : Value → Prop}

theorem after_failed (v : Value) (m : Misuse) : (failed v m).after = v := by
  cases m <;> rfl

theorem after_answered (v : Value) (r : Except Misuse Value) : (answered v r).after = v := by
  cases r with
  | ok x => rfl
  | error m => exact after_failed v m

/-- What holds of the value, and of what a change that succeeds leaves behind, holds afterwards. -/
theorem after_orFailed {r : Except Misuse Change} (hv : q v) (hr : ∀ c, r = .ok c → q c.after) :
    q (orFailed v r).after := by
  cases r with
  | ok c => exact hr c rfl
  | error m => exact (after_failed v m).symm ▸ hv

end Change

/-- The value is a list of proper values. -/
def IsProperList (count : Nat) (v : Value) : Prop := ∃ xs, v = .list xs ∧ ∀ x ∈ xs, Proper count x

theorem isProperList {xs : List Value} (h : ∀ x ∈ xs, Proper count x) : IsProperList count (.list xs) := ⟨xs, rfl, h⟩

theorem proper_headD {xs : List Value} (h : ∀ x ∈ xs, Proper count x) : Proper count (xs.headD .null) := by
  cases xs with
  | nil => exact .leaf _ rfl
  | cons x xs => exact h x List.mem_cons_self

theorem proper_itemAt {xs : List Value} (h : ∀ x ∈ xs, Proper count x) (n : Nat) : Proper count (itemAt xs n) := by
  unfold itemAt
  rw [List.getD_eq_getElem?_getD]
  cases hn : xs[n]? with
  | none => exact .leaf _ rfl
  | some x => exact h x (List.mem_of_getElem? hn)

theorem isProperList_eraseIdx {xs : List Value} (hx : ∀ x ∈ xs, Proper count x) (n : Nat) :
    IsProperList count (.list (xs.eraseIdx n)) :=
  isProperList fun x h => hx x (List.mem_of_mem_eraseIdx h)

theorem isProperList_append_parts {xs ys : List Value} (hx : ∀ x ∈ xs, Proper count x) (hv : Proper count v)
    (hys : v.parts = .ok ys) : IsProperList count (.list (xs ++ ys)) :=
  isProperList (List.forall_mem_append.mpr ⟨hx, hv.part (parts?_of_parts hys)⟩)

theorem isProperList_failed {xs : List Value} (hx : ∀ x ∈ xs, Proper count x) (e : Misuse) :
    IsProperList count (Change.failed (.list xs) e).after :=
  (Change.after_failed (.list xs) e).symm ▸ isProperList hx

theorem isProperList_popAt {xs : List Value} (hx : ∀ x ∈ xs, Proper count x) (i : Int) :
    IsProperList count (changeList.popAt (.list xs) xs i).after := by
  unfold changeList.popAt
  split
  · exact isProperList_eraseIdx hx _
  · exact isProperList_failed hx _

theorem isProperList_sort {xs : List Value} (hx : ∀ x ∈ xs, Proper count x) :
    IsProperList count (match sortItems xs with
      | .ok ys => Change.silent (.list ys)
      | .error (e, ys) => Change.failed (.list ys) e).after := by
  have hsort := Sorting.outcome_sort less hx
  rw [sortItems]
  split
  · rename_i ys hys
    rw [hys] at hsort
    exact isProperList hsort
  · rename_i e ys hys
    rw [hys] at hsort
    exact isProperList_failed hsort e

theorem proper_changeList {xs args : List Value} (hx : ∀ x ∈ xs, Proper count x)
    (ha : ∀ a ∈ args, Proper count a) (m : Method) : IsProperList count (changeList xs m args).after := by
  have hsame := isProperList hx
  have hfailed := isProperList_failed hx
  have hfirst := proper_headD ha
  have hsecond : Proper count ((args.drop 1).headD .null) :=
    proper_headD fun x hx => ha x (List.mem_of_mem_drop hx)
  unfold changeList
  split
  · rename_i x
    exact isProperList (List.forall_mem_append.mpr ⟨hx, by simpa using ha⟩)
  · exact hfailed _
  · rename_i x
    refine Change.after_orFailed hsame fun c hc => ?_
    obtain ⟨ys, hys, rfl⟩ := map_eq_ok.mp hc
    exact isProperList_append_parts hx (ha x (by simp)) hys
  · exact hfailed _
  · refine Change.after_orFailed hsame fun c hc => ?_
    obtain ⟨ys, hys, rfl⟩ := map_eq_ok.mp hc
    exact isProperList_append_parts hx hfirst hys
  · refine Change.after_orFailed hsame fun c hc => ?_
    obtain ⟨n, -, rfl⟩ := map_eq_ok.mp hc
    refine isProperList fun x h => ?_
    obtain ⟨ys, hys, h⟩ := List.mem_flatten.mp h
    exact hx x ((List.mem_replicate.mp hys).2 ▸ h)
  · rename_i i x
    refine Change.after_orFailed hsame fun c hc => ?_
    obtain ⟨n, -, rfl⟩ := map_eq_ok.mp hc
    refine isProperList (List.forall_mem_append.mpr ⟨fun y h => hx y (List.mem_of_mem_take h), ?_⟩)
    exact List.forall_mem_cons.mpr ⟨ha x (by simp), fun y h => hx y (List.mem_of_mem_drop h)⟩
  · exact hfailed _
  · split
    · exact isProperList_eraseIdx hx _
    · exact hfailed _
  · exact hfailed _
  · split
    · exact hfailed _
    · exact isProperList_popAt hx (-1)
  · split
    · exact hfailed _
    · split
      · exact hfailed _
      · exact isProperList_popAt hx _
  · exact hfailed _
  · exact isProperList (by simp)
  · exact hfailed _
  · exact isProperList_sort hx
  · exact hfailed _
  · exact isProperList fun x h => hx x (List.mem_reverse.mp h)
  · exact hfailed _
  · exact (Change.after_answered _ _).symm ▸ hsame
  · refine Change.after_orFailed hsame fun c hc => ?_
    obtain ⟨i, -, hc⟩ := bind_eq_ok.mp hc
    obtain ⟨n, -, hc⟩ := bind_eq_ok.mp hc
    cases hc
    refine isProperList fun x h => ?_
    rcases List.mem_or_eq_of_mem_set h with h | rfl
    · exact hx x h
    · exact hsecond
  · refine Change.after_orFailed hsame fun c hc => ?_
    obtain ⟨i, -, hc⟩ := bind_eq_ok.mp hc
    obtain ⟨n, -, hc⟩ := bind_eq_ok.mp hc
    cases hc
    exact isProperList_eraseIdx hx n
  · exact (Change.after_answered _ _).symm ▸ hsame

/-- The value is a map whose keys can be keys and whose values are proper. -/
def IsProperMap (count : Nat) (v : Value) : Prop := ∃ es : Entries, v = .map es ∧ es.Holds IsKey (Proper count)

theorem isProperMap {es : Entries} (h : es.Holds IsKey (Proper count)) : IsProperMap count (.map es) := ⟨es, rfl, h⟩

theorem asPair_eq_ok {place : Nat} {x : Value} (h : Proper count v) (hp : asPair place v = .ok (k, x)) :
    IsKey k ∧ Proper count x := by
  unfold asPair at hp
  split at hp
  · cases hp
  · rename_i k' x' hparts
    have hall := h.part hparts
    obtain ⟨⟨⟩, hh, hp⟩ := bind_eq_ok.mp hp
    cases hp
    exact ⟨(hall k (by simp)).isKey (hashable_eq_ok_iff.mp hh), hall x (by simp)⟩
  · cases hp

theorem holds_putPairs {es : Entries} (hes : es.Holds IsKey (Proper count)) {xs : List Value}
    (hx : ∀ x ∈ xs, Proper count x) (place : Nat) : (putPairs es place xs).1.Holds IsKey (Proper count) := by
  induction xs generalizing es place with
  | nil => exact hes
  | cons x xs ih =>
    obtain ⟨hfirst, hrest⟩ := List.forall_mem_cons.mp hx
    unfold putPairs
    split
    · exact hes
    · obtain ⟨hk, hv⟩ := asPair_eq_ok hfirst (by assumption)
      exact ih (Entries.holds_put hes (fun _ => hk) hv) hrest (place + 1)

theorem holds_putAll {es fs : Entries} (hes : es.Holds IsKey (Proper count)) (hfs : fs.Holds IsKey (Proper count)) :
    (Entries.putAll es fs).Holds IsKey (Proper count) := by
  obtain ⟨-, hk, hv⟩ := hfs
  unfold Entries.putAll
  induction fs generalizing es with
  | nil => exact hes
  | cons f fs ih =>
    obtain ⟨hk, hks⟩ := List.forall_mem_cons.mp hk
    obtain ⟨hv, hvs⟩ := List.forall_mem_cons.mp hv
    exact ih (Entries.holds_put hes (fun _ => hk) hv) hks hvs

theorem holds_putFrom {es : Entries} (hes : es.Holds IsKey (Proper count)) (hv : Proper count v) :
    (putFrom es v).1.Holds IsKey (Proper count) := by
  unfold putFrom
  split
  · exact holds_putAll hes (hv.entries (by assumption))
  · split
    · exact hes
    · exact holds_putPairs hes (hv.part (parts?_of_parts (by assumption))) 0

section changeMap

variable {es : Entries} (hes : es.Holds IsKey (Proper count))
include hes

theorem isProperMap_failed (e : Misuse) : IsProperMap count (Change.failed (.map es) e).after :=
  (Change.after_failed (.map es) e).symm ▸ isProperMap hes

theorem isProperMap_put {x : Value} (hk : Proper count k) (hh : Value.hashable k = .ok ()) (hx : Proper count x) :
    IsProperMap count (.map (Entries.put k x es)) :=
  isProperMap (Entries.holds_put hes (fun _ => hk.isKey (hashable_eq_ok_iff.mp hh)) hx)

theorem isProperMap_remove (k : Value) : IsProperMap count (.map (Entries.remove k es)) :=
  isProperMap (Entries.holds_remove hes)

theorem isProperMap_popped (k : Value) {missing : Change} (hm : IsProperMap count missing.after) :
    IsProperMap count (changeMap.popped (.map es) es k missing).after := by
  unfold changeMap.popped
  split
  · exact hm
  · refine Change.after_orFailed (isProperMap hes) fun c hc => ?_
    obtain ⟨-, -, hc⟩ := bind_eq_ok.mp hc
    split at hc
    · cases hc
      exact isProperMap_remove hes k
    · cases hc
      exact hm

theorem isProperMap_setDefault {d : Value} (hk : Proper count k) (hd : Proper count d) :
    IsProperMap count (changeMap.setDefault (.map es) es k d).after := by
  refine Change.after_orFailed (isProperMap hes) fun c hc => ?_
  obtain ⟨⟨⟩, hh, hc⟩ := bind_eq_ok.mp hc
  split at hc
  · cases hc
    exact isProperMap hes
  · cases hc
    exact isProperMap_put hes hk hh hd

theorem isProperMap_merged (hv : Proper count v) : IsProperMap count (changeMap.merged es v).after := by
  have hall := holds_putFrom hes hv
  unfold changeMap.merged
  split
  · rename_i fs hfs
    rw [hfs] at hall
    exact isProperMap hall
  · rename_i fs e hfs
    rw [hfs] at hall
    exact isProperMap_failed hall e

theorem proper_changeMap {args : List Value} (ha : ∀ a ∈ args, Proper count a) (m : Method) :
    IsProperMap count (changeMap es m args).after := by
  have hsame := isProperMap hes
  have hfailed := isProperMap_failed hes
  have hfirst := proper_headD ha
  have hsecond : Proper count ((args.drop 1).headD .null) :=
    proper_headD fun x hx => ha x (List.mem_of_mem_drop hx)
  unfold changeMap
  split
  · exact isProperMap_popped hes _ (hfailed _)
  · exact isProperMap_popped hes _ hsame
  · exact hfailed _
  · exact hfailed _
  · split
    · exact isProperMap (hes.of_sublist (List.dropLast_sublist es))
    · exact hfailed _
  · exact hfailed _
  · exact hfailed _
  · exact isProperMap_setDefault hes (ha _ (by simp)) (.leaf _ rfl)
  · exact isProperMap_setDefault hes (ha _ (by simp)) (ha _ (by simp))
  · exact hfailed _
  · exact hsame
  · exact isProperMap_merged hes (ha _ (by simp))
  · exact hfailed _
  · exact isProperMap_merged hes hfirst
  · exact isProperMap Entries.holds_nil
  · exact hfailed _
  · refine Change.after_orFailed hsame fun c hc => ?_
    obtain ⟨⟨⟩, hh, hc⟩ := bind_eq_ok.mp hc
    cases hc
    exact isProperMap_put hes hfirst hh hsecond
  · refine Change.after_orFailed hsame fun c hc => ?_
    obtain ⟨-, -, hc⟩ := bind_eq_ok.mp hc
    split at hc
    · cases hc
      exact isProperMap_remove hes _
    · cases hc
  · exact (Change.after_answered _ _).symm ▸ hsame

end changeMap

/-- The value is a set of values that can be keys. -/
def IsProperSet (v : Value) : Prop := ∃ xs, v = .set xs ∧ ∀ x ∈ xs, IsKey x

theorem isProperSet {xs : List Value} (h : ∀ x ∈ xs, IsKey x) : IsProperSet (.set xs) := ⟨xs, rfl, h⟩

theorem isKey_addItems {xs ys : List Value} (hx : ∀ x ∈ xs, IsKey x) (hy : ∀ y ∈ ys, Proper count y) :
    ∀ x ∈ (addItems xs ys).1, IsKey x := by
  induction ys generalizing xs with
  | nil => exact hx
  | cons y ys ih =>
    obtain ⟨hfirst, hrest⟩ := List.forall_mem_cons.mp hy
    unfold addItems
    split
    · exact hx
    · rename_i hh
      refine ih ?_ hrest
      split
      · exact hx
      · refine List.forall_mem_append.mpr ⟨hx, ?_⟩
        simpa using hfirst.isKey (hashable_eq_ok_iff.mp hh)

theorem isKey_addParts {xs vs : List Value} (hx : ∀ x ∈ xs, IsKey x) (hv : ∀ v ∈ vs, Proper count v) :
    ∀ x ∈ (addParts xs vs).1, IsKey x := by
  induction vs generalizing xs with
  | nil => exact hx
  | cons v vs ih =>
    obtain ⟨hfirst, hrest⟩ := List.forall_mem_cons.mp hv
    unfold addParts
    split
    · exact hx
    · rename_i ys hys
      have hadded := isKey_addItems hx (hfirst.part (parts?_of_parts hys))
      split
      · rename_i zs hzs
        rw [hzs] at hadded
        exact ih hadded hrest
      · rename_i zs e hzs
        rwa [hzs] at hadded

theorem proper_changeSet {xs args : List Value} (hx : ∀ x ∈ xs, IsKey x) (ha : ∀ a ∈ args, Proper count a)
    (m : Method) : IsProperSet (changeSet xs m args).after := by
  have hsame := isProperSet hx
  have hfailed (e : Misuse) : IsProperSet (Change.failed (.set xs) e).after :=
    (Change.after_failed (.set xs) e).symm ▸ hsame
  unfold changeSet
  split
  · split
    · exact isProperSet (List.forall_mem_cons.mp hx).2
    · exact hfailed _
  · exact hfailed _
  · exact isProperSet (by simp)
  · exact hfailed _
  · exact (Change.after_answered _ _).symm ▸ hsame
  · refine Change.after_orFailed hsame fun c hc => ?_
    obtain ⟨-, -, hc⟩ := bind_eq_ok.mp hc
    split at hc
    · cases hc
      exact isProperSet fun x h => hx x (List.mem_of_mem_eraseIdx h)
    · cases hc
  · exact hfailed _
  · have hadded := isKey_addParts hx ha
    split
    · rename_i ys hys
      rw [hys] at hadded
      exact isProperSet hadded
    · rename_i ys e hys
      rw [hys] at hadded
      exact (Change.after_failed _ e).symm ▸ isProperSet hadded
  · rename_i ys
    have hys : ∀ y ∈ ys, Proper count y := (ha (.set ys) (by simp)).part rfl
    exact isProperSet (isKey_addItems hx hys)
  · exact (Change.after_answered _ _).symm ▸ hsame

/-- A part that can change stays one of its kind, and proper. -/
theorem proper_apply_container {args : List Value} (hc : v.isContainer = true) (hv : Proper count v)
    (ha : ∀ a ∈ args, Proper count a) (m : Method) :
    (v.apply m args).after.isContainer = true ∧ Proper count (v.apply m args).after := by
  unfold apply
  split
  · rw [Change.after_failed]
    cases v <;> first | exact absurd hc Bool.false_ne_true | exact ⟨rfl, hv⟩
  · cases hv with
    | list xs h =>
      obtain ⟨ys, hys, hy⟩ := proper_changeList h ha m
      have hafter : ((Value.list xs).bare.applyBare m args).after = .list ys := hys
      exact hafter ▸ ⟨rfl, .list ys hy⟩
    | set xs h =>
      obtain ⟨ys, hys, hy⟩ := proper_changeSet h ha m
      have hafter : ((Value.set xs).bare.applyBare m args).after = .set ys := hys
      exact hafter ▸ ⟨rfl, .set ys hy⟩
    | map es hd hk hv =>
      obtain ⟨fs, hfs, hf⟩ := proper_changeMap ⟨hd, hk, hv⟩ ha m
      have hafter : ((Value.map es).bare.applyBare m args).after = .map fs := hfs
      exact hafter ▸ ⟨rfl, .map fs hf.distinct hf.keys hf.values⟩
    | leaf v h => cases v <;> first | exact absurd hc Bool.false_ne_true | exact absurd h Bool.false_ne_true
    | _ => exact absurd hc Bool.false_ne_true

theorem Change.result_answered {r : Except Misuse Value} {x : Value} (h : (answered v r).result = .ok x) :
    r = .ok x := by
  cases r with
  | ok y =>
    cases h
    rfl
  | error m => cases m <;> cases h

/-- An item of a list is one of its items, or null. -/
theorem proper_subscript (owner sequence : String) {xs args : List Value} {x : Value}
    (hx : ∀ x ∈ xs, Proper count x)
    (h : ((inspectItems? owner sequence xs .getItem args).getD (otherwise v .getItem args)) = .ok x) :
    Proper count x := by
  obtain ⟨i, -, h⟩ := bind_eq_ok.mp h
  obtain ⟨n, -, h⟩ := bind_eq_ok.mp h
  cases h
  exact proper_itemAt hx n

theorem proper_lookup (owner : String) {es : Entries} {args : List Value} {x : Value}
    (hv : ∀ e ∈ es, Proper count e.2)
    (h : ((inspectEntries? owner es .getItem args).getD (otherwise v .getItem args)) = .ok x) :
    Proper count x := by
  obtain ⟨-, -, h⟩ := bind_eq_ok.mp h
  split at h
  · rename_i y hy
    cases h
    obtain ⟨e, he, -, rfl⟩ := Entries.mem_of_get? hy
    exact hv e he
  · cases h

theorem otherwise_getItem (v : Value) (args : List Value) (x : Value) : otherwise v .getItem args ≠ .ok x := by
  cases v <;> simp [otherwise]

theorem proper_getItem {key x : Value} (h : Proper count v) (hx : (v.apply .getItem [key]).result = .ok x) :
    Proper count x := by
  have hb := h.bare
  have happly : v.apply .getItem [key] = v.bare.applyBare .getItem [key] := rfl
  rw [happly] at hx
  generalize v.bare = w at hb hx
  have hno (hw : w.inspect .getItem [key] = otherwise w .getItem [key])
      (hx : (Change.answered w (w.inspect .getItem [key])).result = .ok x) : Proper count x :=
    absurd (hw ▸ Change.result_answered hx) (otherwise_getItem w [key] x)
  cases hb with
  | leaf w hw =>
    cases w with
    | str s =>
      obtain ⟨i, -, hx⟩ := bind_eq_ok.mp (Change.result_answered hx)
      obtain ⟨n, -, hx⟩ := bind_eq_ok.mp hx
      cases hx
      cases s.toList[n]? <;> exact .leaf _ rfl
    | bytes bs =>
      obtain ⟨i, -, hx⟩ := bind_eq_ok.mp (Change.result_answered hx)
      obtain ⟨n, -, hx⟩ := bind_eq_ok.mp hx
      cases hx
      cases bs[n]? <;> exact .leaf _ rfl
    | _ => first
      | exact absurd hw Bool.false_ne_true
      | exact hno rfl hx
  | list xs h => exact proper_subscript "list" "list" (v := .list xs) h (Change.result_answered hx)
  | frozenList xs h =>
    exact proper_subscript "FrozenList" "list" (v := .frozenList xs) h (Change.result_answered hx)
  | tuple xs h => exact proper_subscript "tuple" "tuple" (v := .tuple xs) h (Change.result_answered hx)
  | set xs h => exact absurd (Change.result_answered hx) (otherwise_getItem _ _ _)
  | map es hd hk hv => exact proper_lookup "dict" (v := .map es) hv (Change.result_answered hx)
  | frozenMap es hd hk hv =>
    exact proper_lookup "FrozenDict" (v := .frozenMap es) hv (Change.result_answered hx)
  | view es hd hk hv => exact proper_lookup "mappingproxy" (v := .view es) hv (Change.result_answered hx)
  | config n b es hn hd hk hv => exact hno rfl hx
  | labelled l v hc hv => exact hno rfl hx

end TopologyConfig.Value
