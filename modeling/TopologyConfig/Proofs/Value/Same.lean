import TopologyConfig.Proofs.Value.Document
import TopologyConfig.Proofs.Value.Subscript
import Mathlib.Data.List.Perm.Subperm

/-!
When values are the same. Keys are so in both directions, so that among distinct keys each one finds its own entry, and
a proper value is the same as itself. A map under texts is the same as another one only if their keys are those texts in
some order.
-/
namespace TopologyConfig

open Value

theorem Binary64.compare?_eq_comm (x y : Binary64) : x.compare? y = some .eq ↔ y.compare? x = some .eq := by
  unfold Binary64.compare?
  rw [Bool.or_comm y.isNaN, Bool.or_comm y.isInfinite, Int.min_comm y.exponent]
  split
  · rfl
  · split <;> simp only [Option.some.injEq, Std.LawfulEqCmp.compare_eq_iff_eq] <;> exact eq_comm

namespace Value

section

variable {k v w : Value}

theorem str_same_iff {s : String} : (str s).same w = true ↔ w.bare = str s := by
  have hscalar : (str s).same w = sameScalar (str s) w.bare := by simp [same, number?]
  rw [hscalar]
  generalize w.bare = k
  cases k with
  | str t =>
    simp only [sameScalar, beq_iff_eq, str.injEq]
    exact eq_comm
  | _ => simp [sameScalar]

theorem allEntriesAmong_iff {es fs : Entries} : allEntriesAmong es fs = true ↔
    ∀ e ∈ es, ∃ f, fs.find? (fun f => e.1.same f.1) = some f ∧ e.2.same f.2 = true := by
  induction es with
  | nil => simp [allEntriesAmong]
  | cons e es ih =>
    obtain ⟨k, v⟩ := e
    rw [allEntriesAmong, Bool.and_eq_true, ih, List.forall_mem_cons]
    refine and_congr_left' ?_
    cases fs.find? (fun f => k.same f.1) <;> simp

theorem same_of_sameItems_map {g : Value → Value} {xs : List Value} (h : sameItems (xs.map g) xs = true) :
    ∀ x ∈ xs, (g x).same x = true := by
  induction xs with
  | nil => exact fun x hx => absurd hx List.not_mem_nil
  | cons x xs ih =>
    rw [List.map_cons, sameItems, Bool.and_eq_true] at h
    exact List.forall_mem_cons.mpr ⟨h.1, ih h.2⟩

end

section symmetry

variable {j k v w : Value} {xs ys : List Value}

theorem Number.same_comm (a b : Number) : a.same b = b.same a := by
  have hmixed (o : Option Ordering) : (o.map Ordering.swap == some .eq) = (o == some .eq) := by
    rcases o with _ | _ | _ | _ <;> rfl
  cases a with
  | whole m =>
    cases b with
    | whole n =>
      rw [Bool.eq_iff_iff]
      simp only [Number.same, Number.compare?, beq_iff_eq, Option.some.injEq, Std.LawfulEqCmp.compare_eq_iff_eq]
      exact eq_comm
    | real y => simp only [Number.same, Number.compare?, hmixed]
  | real x =>
    cases b with
    | whole n => simp only [Number.same, Number.compare?, hmixed]
    | real y =>
      rw [Bool.eq_iff_iff]
      simp only [Number.same, Bool.or_eq_true, beq_iff_eq, Binary64.compare?_eq_comm x y]
      exact or_congr_left eq_comm

theorem sameScalar_symm (h : sameScalar v w = true) : sameScalar w v = true := by
  revert h
  fun_cases sameScalar v w <;>
    simp +contextual [sameScalar, Timestamp.sameInstant, Timestamp.comparable]

theorem bare_of_isLeaf (hj : j.isLeaf = true) : j.bare = j := by
  cases j <;> first | exact absurd hj Bool.false_ne_true | rfl

/-- A value without parts is compared by its number, if it is one and meets another. -/
theorem same_of_isLeaf (hj : j.isLeaf = true) (k : Value) : j.same k =
    (j.number?.bind fun a => k.bare.number?.map a.same).getD (sameScalar j k.bare) := by
  cases j <;> first
    | exact absurd hj Bool.false_ne_true
    | (simp only [same]; cases k.bare.number? <;> rfl)

theorem same_comm_of_isLeaf (hj : j.isLeaf = true) (hk : k.isLeaf = true) : j.same k = k.same j := by
  have hscalar : sameScalar j k = sameScalar k j := Bool.eq_iff_iff.mpr ⟨sameScalar_symm, sameScalar_symm⟩
  rw [same_of_isLeaf hj, same_of_isLeaf hk, bare_of_isLeaf hj, bare_of_isLeaf hk, hscalar]
  cases j.number? <;> cases k.number? <;> first | rfl | exact Number.same_comm _ _

theorem not_same_tuple_of_isLeaf (hj : j.isLeaf = true) (xs : List Value) : j.same (tuple xs) = false := by
  rw [same_of_isLeaf hj]
  cases j <;> first | exact absurd hj Bool.false_ne_true | rfl

theorem same_tuple_tuple (xs ys : List Value) : (tuple xs).same (tuple ys) = sameItems xs ys := by
  simp [same, bare]

theorem sameItems_symm (ih : ∀ x ∈ xs, ∀ y ∈ ys, x.same y = true → y.same x = true) (h : sameItems xs ys = true) :
    sameItems ys xs = true := by
  induction xs generalizing ys with
  | nil =>
    rw [sameItems, List.isEmpty_iff] at h
    rw [h, sameItems, List.isEmpty_nil]
  | cons x xs ihxs =>
    cases ys with
    | nil => simp [sameItems] at h
    | cons y ys =>
      rw [sameItems, Bool.and_eq_true] at h ⊢
      refine ⟨ih x List.mem_cons_self y List.mem_cons_self h.1, ihxs (fun x hx y hy => ?_) h.2⟩
      exact ih x (List.mem_cons_of_mem _ hx) y (List.mem_cons_of_mem _ hy)

theorem IsKey.same_symm (hj : IsKey j) (hk : IsKey k) (h : j.same k = true) : k.same j = true := by
  induction hj generalizing k with
  | leaf j hj =>
    cases hk with
    | leaf k hk => rwa [same_comm_of_isLeaf hk hj]
    | tuple ys _ => exact absurd h (by simp [not_same_tuple_of_isLeaf hj])
  | tuple xs _ ih =>
    cases hk with
    | leaf k hk =>
      rw [same, bare_of_isLeaf hk] at h
      cases k <;> first | exact absurd hk Bool.false_ne_true | cases h
    | tuple ys hys =>
      rw [same_tuple_tuple] at h ⊢
      exact sameItems_symm (fun x hx y hy => ih x hx (hys y hy)) h

end symmetry

end Value

namespace Entries

variable {es fs : Entries}

/-- Among distinct keys each one finds its own entry. -/
theorem find?_of_mem (hd : es.Distinct) (hk : ∀ e ∈ es, IsKey e.1) {e : Value × Value} (he : e ∈ es) :
    es.find? (fun f => e.1.same f.1) = some e := by
  induction es with
  | nil => cases he
  | cons d es ih =>
    obtain ⟨hfirst, hrest⟩ := List.pairwise_cons.mp hd
    obtain ⟨hkey, hkeys⟩ := List.forall_mem_cons.mp hk
    rcases List.mem_cons.mp he with rfl | he
    · simp [hkey.same_self]
    · have hne : ¬ e.1.same d.1 = true := fun h =>
        absurd ((hkeys e he).same_symm hkey h) (by simp [hfirst e he])
      rw [List.find?_cons_of_neg (by simpa using hne)]
      exact ih hrest hkeys he

theorem isKey_of_hasTextKeys (h : es.HasTextKeys) : ∀ e ∈ es, IsKey e.1 := by
  intro e he
  obtain ⟨s, hs⟩ := exists_str_of_isString (h e he)
  exact hs ▸ .leaf _ rfl

end Entries

namespace Value

section self

variable {count : Nat} {v : Value} {es : Entries} {xs ys : List Value}

theorem same_of_mapping? {v : Value} {es : Entries} (h : v.mapping? = some es) (w : Value) :
    v.same w = sameMapping es w.mapping? := by
  induction v using Value.induction with
  | leaf v hv => cases v <;> simp_all [isLeaf, mapping?]
  | map fs | frozenMap fs | view fs | config n b fs =>
    cases h
    rw [same]
    cases w.mapping? <;> rfl
  | labelled l v ih =>
    rw [same]
    exact ih h
  | _ => cases h

/-- A label does not count. -/
theorem same_labelled_right (v w : Value) (l : Nat) : v.same (labelled l w) = v.same w := by
  induction v using Value.induction with
  | leaf v hv => rw [same_of_isLeaf hv, same_of_isLeaf hv, bare]
  | labelled l v ih => rw [same, same, ih]
  | _ => simp only [same, listItems?, mapping?, bare]

theorem sameItems_map {f : Value → Value} (h : ∀ x ∈ xs, (f x).same x = true) : sameItems (xs.map f) xs = true := by
  induction xs with
  | nil => simp [sameItems]
  | cons x xs ih =>
    obtain ⟨hfirst, hrest⟩ := List.forall_mem_cons.mp h
    rw [List.map_cons, sameItems, hfirst, ih hrest, Bool.and_self]

theorem sameMapping_mapValues {f : Value → Value} (hd : es.Distinct) (hk : ∀ e ∈ es, IsKey e.1)
    (h : ∀ e ∈ es, (f e.2).same e.2 = true) : sameMapping (mapValues f es) (some es) = true := by
  have hlength : (mapValues f es).length = es.length := List.length_map _
  have hall : allEntriesAmong (mapValues f es) es = true := by
    refine allEntriesAmong_iff.mpr fun e he => ?_
    obtain ⟨d, hmem, rfl⟩ := mem_mapValues.mp he
    exact ⟨d, Entries.find?_of_mem hd hk hmem, h d hmem⟩
  simp [sameMapping, hall, hlength]

theorem sameMapping_self (hd : es.Distinct) (hk : ∀ e ∈ es, IsKey e.1) (h : ∀ e ∈ es, e.2.same e.2 = true) :
    sameMapping es (some es) = true := by
  have hid : mapValues id es = es := by simp [mapValues]
  simpa [hid] using sameMapping_mapValues (f := id) hd hk h

theorem allAmong_of_subset (h : ∀ x ∈ xs, x.same x = true) (hsub : ∀ x ∈ xs, x ∈ ys) : allAmong xs ys = true := by
  induction xs with
  | nil => simp [allAmong]
  | cons x xs ih =>
    obtain ⟨hfirst, hrest⟩ := List.forall_mem_cons.mp h
    obtain ⟨hmem, hsub⟩ := List.forall_mem_cons.mp hsub
    rw [allAmong, ih hrest hsub, Bool.and_true, List.any_eq_true]
    exact ⟨x, hmem, hfirst⟩

/-- A value is the same as itself, whatever numbers are in it. -/
theorem Proper.same_self (h : Proper count v) : v.same v = true := by
  induction h with
  | leaf v h => exact IsKey.same_self (.leaf v h)
  | list xs _ ih | frozenList xs _ ih =>
    rw [same]
    exact sameItems_self ih
  | tuple xs _ ih =>
    rw [same_tuple_tuple]
    exact sameItems_self ih
  | set xs h =>
    have hbare : (Value.set xs).bare = .set xs := rfl
    have hall : allAmong xs xs = true := allAmong_of_subset (fun x hx => (h x hx).same_self) fun _ hx => hx
    rw [same, hbare]
    simp [hall]
  | map es hd hk _ ih | frozenMap es hd hk _ ih | view es hd hk _ ih | config n b es _ hd hk _ ih =>
    rw [same_of_mapping? rfl]
    exact sameMapping_self hd hk ih
  | labelled l v _ _ ih => rwa [same, same_labelled_right]

theorem IsDocument.proper (h : v.IsDocument) : Proper count v := by
  induction h with
  | list xs _ ih => exact .list xs ih
  | map es hkeys hd _ ih => exact .map es hd (Entries.isKey_of_hasTextKeys hkeys) ih
  | _ => exact .leaf _ rfl

end self

end Value

namespace Entries

variable {es fs : Entries}

theorem distinct_iff_nodup (h : es.HasTextKeys) : es.Distinct ↔ (keys es).Nodup := by
  unfold Distinct List.Nodup keys
  rw [List.pairwise_map]
  refine List.Pairwise.iff_of_mem fun {d e} hd he => ?_
  obtain ⟨s, hs⟩ := exists_str_of_isString (h d hd)
  obtain ⟨t, ht⟩ := exists_str_of_isString (h e he)
  rw [hs, ht, same_str_str]
  simp

/-- Entries under distinct texts that all find their keys in a map of no more entries have the keys of the map. -/
theorem keys_perm (hkeys : fs.HasTextKeys) (hd : fs.Distinct) (hlength : es.length ≤ fs.length)
    (hbare : ∀ e ∈ es, e.1.bare = e.1) (h : ∀ f ∈ fs, ∃ e, es.find? (fun e => f.1.same e.1) = some e) :
    (keys fs).Perm (keys es) := by
  have hsubset : keys fs ⊆ keys es := by
    intro k hk
    obtain ⟨f, hf, rfl⟩ := List.mem_map.mp hk
    obtain ⟨e, he⟩ := h f hf
    obtain ⟨s, hs⟩ := exists_str_of_isString (hkeys f hf)
    have hmem := List.mem_of_find?_eq_some he
    have hsame := List.find?_some he
    rw [hs] at hsame
    have hkey : e.1 = .str s := (hbare e hmem).symm.trans (str_same_iff.mp hsame)
    rw [hs, ← hkey]
    exact List.mem_map_of_mem hmem
  refine (List.subperm_of_subset ((distinct_iff_nodup hkeys).mp hd) hsubset).perm_of_length_le ?_
  simpa [keys] using hlength

theorem hasTextKeys_of_perm (hkeys : fs.HasTextKeys) (h : (keys fs).Perm (keys es)) : es.HasTextKeys := by
  intro e he
  obtain ⟨f, hf, heq⟩ := List.mem_map.mp (h.mem_iff.mpr (List.mem_map_of_mem he))
  rw [← heq]
  exact hkeys f hf

theorem distinct_of_perm (hkeys : fs.HasTextKeys) (hd : fs.Distinct) (h : (keys fs).Perm (keys es)) : es.Distinct := by
  rw [distinct_iff_nodup (hasTextKeys_of_perm hkeys h), ← h.nodup_iff]
  exact (distinct_iff_nodup hkeys).mp hd

end Entries

end TopologyConfig
