import TopologyConfig.Proofs.Session.Inside
import TopologyConfig.Proofs.Value.Same

/-!
The plain and the frozen form of a value. Each form is reached in one step, from the value and from its other form, and
goes through the value: every part of a thawed value is plain, and every list or map in what is frozen after that
rejects all changes. What stands in sets, in keys and in configurations is no part here.
-/
namespace TopologyConfig

/-- Some call of the method changes a list. -/
def Method.MutatesLists (m : Method) : Prop := ∃ xs args, ((Value.list xs).apply m args).after ≠ .list xs

/-- Some call of the method changes a map. -/
def Method.MutatesMaps (m : Method) : Prop := ∃ es args, ((Value.map es).apply m args).after ≠ .map es

namespace Value

/-- The value itself and what stands in it at any depth, apart from what a configuration holds. -/
inductive HasPart : Value → Value → Prop where
  | itself (v : Value) : HasPart v v
  | inside (v x w : Value) (hx : x ∈ v.inside) (h : HasPart x w) : HasPart v w

/-- The value is no tuple, nothing frozen and no mapping but a map. -/
def isPlain : Value → Bool
  | frozenList _ | tuple _ | frozenMap _ | view _ | config _ _ _ | labelled _ _ => false
  | _ => true

/-- The value is no list, tuple or mapping but a frozen one. -/
def isFrozen : Value → Bool
  | list _ | tuple _ | map _ | view _ | config _ _ _ | labelled _ _ => false
  | _ => true

def isNaN : Value → Bool
  | float x => x.isNaN
  | _ => false

/-- A list rejects every call of a method that changes lists, and a map of one that changes maps. -/
structure RejectsChanges (v : Value) : Prop where
  list : ∀ xs, v.listItems? = some xs → ∀ m args, m.MutatesLists → m.operandMisuse? args = none →
    v.apply m args = ⟨.error .frozen, v⟩
  map : ∀ es, v.mapEntries? = some es → ∀ m args, m.MutatesMaps → m.operandMisuse? args = none →
    v.apply m args = ⟨.error .frozen, v⟩

section parts

variable {v w x : Value}

/-- What the parts of all results are, down to the last ones, if it is what stands directly in them. -/
theorem HasPart.exists_eq {f : Value → Value} (hf : ∀ v x, x ∈ (f v).inside → ∃ y, x = f y) (h : HasPart w x)
    (hw : ∃ v, w = f v) : ∃ v, x = f v := by
  induction h with
  | itself w => exact hw
  | inside w y x hy _ ih =>
    obtain ⟨v, rfl⟩ := hw
    exact ih (hf v y hy)

theorem forall_hasPart_iff {P : Value → Prop} :
    (∀ w, HasPart v w → P w) ↔ P v ∧ ∀ x ∈ v.inside, ∀ w, HasPart x w → P w := by
  refine ⟨fun h => ⟨h v (.itself v), fun x hx w hw => h w (.inside v x w hx hw)⟩, fun ⟨hv, hinside⟩ w hw => ?_⟩
  cases hw with
  | itself => exact hv
  | inside _ x _ hx hw => exact hinside x hx w hw

theorem inside_of_isLeaf (h : v.isLeaf = true) : v.inside = [] := by
  cases v <;> first | rfl | exact absurd h Bool.false_ne_true

theorem map_snd_mapValues (f : Value → Value) (es : Entries) : (mapValues f es).map (·.2) = (es.map (·.2)).map f := by
  simp [mapValues]

theorem exists_thaw_of_mem_inside (v x : Value) (h : x ∈ v.thaw.inside) : ∃ y : Value, x = y.thaw := by
  have himage {xs : List Value} (h : x ∈ xs.map thaw) : ∃ y : Value, x = y.thaw := by
    obtain ⟨y, -, rfl⟩ := List.mem_map.mp h
    exact ⟨y, rfl⟩
  induction v using Value.induction with
  | leaf v hl => simp [thaw_of_isLeaf hl, inside_of_isLeaf hl] at h
  | list xs _ => exact himage (thaw_list xs ▸ h)
  | frozenList xs _ => exact himage (thaw_frozenList xs ▸ h)
  | tuple xs _ => exact himage (thaw_tuple xs ▸ h)
  | set xs _ => cases h
  | map es _ | frozenMap es _ | view es _ | config n b es _ =>
    first | rw [thaw_map] at h | rw [thaw_frozenMap] at h | rw [thaw_view] at h | rw [thaw_config] at h
    rw [inside, map_snd_mapValues] at h
    exact himage h
  | labelled l v ih => exact ih (thaw_labelled l v ▸ h)

theorem isPlain_thaw (v : Value) : v.thaw.isPlain = true := by
  induction v using Value.induction with
  | leaf v hl =>
    rw [thaw_of_isLeaf hl]
    cases v <;> first | rfl | exact absurd hl Bool.false_ne_true
  | labelled l v ih => rwa [thaw_labelled]
  | _ => simp [isPlain]

theorem isPlain_of_hasPart_thaw (h : HasPart v.thaw w) : w.isPlain = true := by
  obtain ⟨u, rfl⟩ := h.exists_eq exists_thaw_of_mem_inside ⟨v, rfl⟩
  exact isPlain_thaw u

theorem inside_freeze_of_isPlain (h : v.isPlain = true) : v.freeze.inside = v.inside.map freeze := by
  cases v with
  | list xs => rw [freeze_list, inside, inside]
  | map es => rw [freeze_map, inside, inside, map_snd_mapValues]
  | _ => first | rfl | exact absurd h Bool.false_ne_true

theorem isFrozen_freeze_of_isPlain (h : v.isPlain = true) : v.freeze.isFrozen = true := by
  cases v <;> first | rfl | exact absurd h Bool.false_ne_true

theorem exists_freeze_thaw_of_mem_inside (v x : Value) (h : x ∈ v.thaw.freeze.inside) :
    ∃ y : Value, x = y.thaw.freeze := by
  rw [inside_freeze_of_isPlain (isPlain_thaw v)] at h
  obtain ⟨y, hy, rfl⟩ := List.mem_map.mp h
  obtain ⟨u, rfl⟩ := exists_thaw_of_mem_inside v y hy
  exact ⟨u, rfl⟩

theorem isFrozen_of_hasPart_freeze_thaw (h : HasPart v.thaw.freeze w) : w.isFrozen = true := by
  obtain ⟨u, rfl⟩ := h.exists_eq (f := fun v => v.thaw.freeze) exists_freeze_thaw_of_mem_inside ⟨v, rfl⟩
  exact isFrozen_freeze_of_isPlain (isPlain_thaw u)

end parts

section changes

variable {m : Method}

theorem mutatesLists_of_after (before args after : List Value)
    (h : ((Value.list before).apply m args).after = .list after) (hne : after ≠ before) : m.MutatesLists :=
  ⟨before, args, fun hsame => hne (Value.list.inj (h.symm.trans hsame))⟩

theorem mutatesMaps_of_after (before : Entries) (args : List Value) (after : Entries)
    (h : ((Value.map before).apply m args).after = .map after) (hne : after ≠ before) : m.MutatesMaps :=
  ⟨before, args, fun hsame => hne (Value.map.inj (h.symm.trans hsame))⟩

theorem mutatesLists_of_changesList (h : m.changesList = true) : m.MutatesLists := by
  cases m with
  | append => exact mutatesLists_of_after [] [.null] [.null] rfl (by simp)
  | extend | addAssign => exact mutatesLists_of_after [] [.list [.null]] [.null] rfl (by simp)
  | insert => exact mutatesLists_of_after [] [.int 0, .null] [.null] rfl (by simp)
  | remove => exact mutatesLists_of_after [.null] [.null] [] rfl (by simp)
  | pop | clear => exact mutatesLists_of_after [.null] [] [] rfl (by simp)
  | sort => exact mutatesLists_of_after [.int 2, .int 1] [] [.int 1, .int 2] (by cbv) (by simp)
  | reverse => exact mutatesLists_of_after [.null, .str ""] [] [.str "", .null] rfl (by simp)
  | setItem => exact mutatesLists_of_after [.null] [.int 0, .str ""] [.str ""] rfl (by simp)
  | deleteItem | multiplyAssign => exact mutatesLists_of_after [.null] [.int 0] [] rfl (by simp)
  | _ => cases h

theorem mutatesMaps_of_changesMap (h : m.changesMap = true) : m.MutatesMaps := by
  cases m with
  | setItem | setdefault => exact mutatesMaps_of_after [] [.null, .null] [(.null, .null)] rfl (by simp)
  | deleteItem => exact mutatesMaps_of_after [(.null, .null)] [.null] [] rfl (by simp)
  | pop =>
    have hsame : Value.null.same .null = true := IsKey.same_self (.leaf .null rfl)
    have hget : Entries.get? [(.null, .null)] .null = some .null := Entries.get?_cons_of_same [] hsame
    have hremove : Entries.remove .null [(.null, .null)] = [] := if_pos hsame
    refine mutatesMaps_of_after [(.null, .null)] [.null] [] ?_ (by simp)
    simp only [apply, Method.operandMisuse?, Method.operands?, bare, applyBare, changeMap, changeMap.popped, hget,
      hremove]
    rfl
  | popitem | clear => exact mutatesMaps_of_after [(.null, .null)] [] [] rfl (by simp)
  | mergeAssign | update => exact mutatesMaps_of_after [] [.map [(.null, .null)]] [(.null, .null)] rfl (by simp)
  | _ => cases h

/-- Frozen lists reject a method exactly if some call of it changes a list. -/
theorem changesList_iff_mutatesLists : m.changesList = true ↔ m.MutatesLists := by
  refine ⟨mutatesLists_of_changesList, fun ⟨xs, args, h⟩ => ?_⟩
  rw [apply] at h
  split at h
  · exact absurd (Change.after_failed _ _) h
  · cases m <;> first | rfl | exact absurd (Change.after_answered _ _) h

theorem changesMap_iff_mutatesMaps : m.changesMap = true ↔ m.MutatesMaps := by
  refine ⟨mutatesMaps_of_changesMap, fun ⟨es, args, h⟩ => ?_⟩
  rw [apply] at h
  split at h
  · exact absurd (Change.after_failed _ _) h
  · cases m <;> first | rfl | exact absurd (Change.after_answered _ _) h

theorem rejectsChanges_of_isFrozen {v : Value} (h : v.isFrozen = true) : v.RejectsChanges where
  list xs hxs m args hm hargs := by
    cases v with
    | frozenList ys =>
      rw [apply, hargs]
      exact if_pos (changesList_iff_mutatesLists.mpr hm)
    | _ => first | exact absurd h Bool.false_ne_true | cases hxs
  map es hes m args hm hargs := by
    cases v with
    | frozenMap fs =>
      rw [apply, hargs]
      exact if_pos (changesMap_iff_mutatesMaps.mpr hm)
    | _ => first | exact absurd h Bool.false_ne_true | cases hes

end changes

section equality

variable {count : Nat} {v : Value}

/-- Freezing changes the form of a value alone, if no tuple becomes a list. -/
theorem Proper.same_freeze (h : Proper count v) (ht : ∀ w, HasPart v w → w.isTuple = false) :
    v.freeze.same v = true := by
  have hitems {w : Value} {xs : List Value} (hw : w.inside = xs) (ht : ∀ u, HasPart w u → u.isTuple = false)
      (ih : ∀ x ∈ xs, (∀ u, HasPart x u → u.isTuple = false) → x.freeze.same x = true) :
      ∀ x ∈ xs, x.freeze.same x = true :=
    fun x hx => ih x hx ((forall_hasPart_iff.mp ht).2 x (hw ▸ hx))
  have hvalues {w : Value} {es : Entries} (hw : w.inside = es.map (·.2)) (ht : ∀ u, HasPart w u → u.isTuple = false)
      (ih : ∀ e ∈ es, (∀ u, HasPart e.2 u → u.isTuple = false) → e.2.freeze.same e.2 = true) :
      ∀ e ∈ es, e.2.freeze.same e.2 = true :=
    fun e he => ih e he ((forall_hasPart_iff.mp ht).2 e.2 (hw ▸ List.mem_map_of_mem he))
  induction h with
  | leaf v hl => exact (freeze_of_isLeaf hl).symm ▸ IsKey.same_self (.leaf v hl)
  | list xs _ ih =>
    rw [freeze_list, same]
    exact sameItems_map (hitems rfl ht ih)
  | frozenList xs _ ih =>
    rw [freeze_frozenList, same]
    exact sameItems_map (hitems rfl ht ih)
  | tuple xs _ _ => exact absurd (ht _ (.itself _)) Bool.false_ne_true.symm
  | set xs h =>
    have hset : Proper count (.set xs) := .set xs h
    exact hset.same_self
  | map es hd hk _ ih =>
    rw [freeze_map, same_of_mapping? rfl]
    exact sameMapping_mapValues hd hk (hvalues rfl ht ih)
  | frozenMap es hd hk _ ih =>
    rw [freeze_frozenMap, same_of_mapping? rfl]
    exact sameMapping_mapValues hd hk (hvalues rfl ht ih)
  | view es hd hk hv _ => exact (Proper.view es hd hk hv).same_self
  | config n b es hn hd hk hv _ => exact (Proper.config n b es hn hd hk hv).same_self
  | labelled l v hc hv ih =>
    rcases freeze_labelled_cases l v with ⟨xs, rfl⟩ | h
    · exact (Proper.labelled l _ hc hv).same_self
    · rw [h, same_labelled_right]
      exact ih ((forall_hasPart_iff.mp ht).2 v List.mem_cons_self)

theorem equal_of_same {w : Value} (h : v.same w = true) (hn : v.isNaN = false) : v.equal w = true := by
  cases v with
  | float x =>
    have hx : x.isNaN = false := hn
    simp [equal, hx, h]
  | _ => exact h

theorem Proper.isNaN_freeze (h : Proper count v) : v.freeze.isNaN = v.isNaN := by
  cases h with
  | leaf v hl => rw [freeze_of_isLeaf hl]
  | labelled l v hc _ => cases v <;> first | rfl | exact absurd hc Bool.false_ne_true
  | _ => rfl

/-- A value without tuples equals its frozen form, unless it is no number itself. -/
theorem Proper.equal_freeze (h : Proper count v) (ht : ∀ w, HasPart v w → w.isTuple = false) (hn : v.isNaN = false) :
    v.freeze.equal v = true :=
  equal_of_same (h.same_freeze ht) (h.isNaN_freeze.trans hn)

end equality

theorem deepCopy?_freeze_of_isPlain {v : Value} (h : v.isPlain = true) : v.freeze.deepCopy? = some v.thaw := by
  have hthaw := thaw_freeze v
  cases v with
  | list xs => rw [← hthaw, freeze, thaw, deepCopy?, bare.eq_2 _ (by simp)]
  | map es => rw [← hthaw, freeze, thaw, deepCopy?, bare.eq_2 _ (by simp)]
  | _ => first | rfl | exact absurd h Bool.false_ne_true

/-- The laws of the plain and the frozen form. An opaque object stands for every instance of its class, so that its
copies are the same value. -/
theorem forms_are_stable (v : Value) :
    (v.freeze.thaw = v.thaw ∧ v.thaw.thaw = v.thaw ∧ v.freeze.freeze = v.freeze) ∧
    (∀ w, HasPart v.thaw w → w.isPlain = true) ∧
    (∀ w, HasPart v.thaw.freeze w → w.isFrozen = true ∧ w.RejectsChanges) ∧
    v.thaw.freeze.deepCopy? = some v.thaw ∧
    ∀ count, Proper count v → (∀ w, HasPart v w → w.isTuple = false) → v.isNaN = false → v.freeze.equal v = true := by
  refine ⟨⟨thaw_freeze v, thaw_thaw v, freeze_freeze v⟩, fun w => isPlain_of_hasPart_thaw, fun w h => ?_, ?_, ?_⟩
  · have hfrozen := isFrozen_of_hasPart_freeze_thaw h
    exact ⟨hfrozen, rejectsChanges_of_isFrozen hfrozen⟩
  · rw [deepCopy?_freeze_of_isPlain (isPlain_thaw v), thaw_thaw]
  · exact fun count hv ht hn => hv.equal_freeze ht hn

/-- A map with a list of a set and a read-only view. -/
def mapWithView : Value := .map [(.str "a", .list [.set [.int 1], .view [(.int 2, .null)]])]

theorem map_with_view_equals_its_frozen_form :
    mapWithView.freeze.equal mapWithView = true ∧
      mapWithView.thaw.freeze.apply .pop [.str "a"] = ⟨.error .frozen, mapWithView.thaw.freeze⟩ := by
  have hview : Proper 0 (.view [(.int 2, .null)]) := by
    refine .view _ (List.pairwise_singleton _ _) ?_ ?_ <;> simpa using .leaf _ rfl
  have hset : Proper 0 (.set [.int 1]) := .set _ (by simpa using .leaf _ rfl)
  have hlist : Proper 0 (.list [.set [.int 1], .view [(.int 2, .null)]]) := .list _ (by simp [hset, hview])
  have hproper : Proper 0 mapWithView :=
    .map _ (List.pairwise_singleton _ _) (by simpa using .leaf _ rfl) (by simpa using hlist)
  have hnoTuple {v : Value} (hv : v.isTuple = false) (h : ∀ x ∈ v.inside, ∀ w, HasPart x w → w.isTuple = false) :
      ∀ w, HasPart v w → w.isTuple = false := forall_hasPart_iff.mpr ⟨hv, h⟩
  have hparts : ∀ w, HasPart mapWithView w → w.isTuple = false := by
    refine hnoTuple rfl (List.forall_mem_singleton.mpr (hnoTuple rfl (List.forall_mem_cons.mpr ⟨?_, ?_⟩)))
    · exact hnoTuple rfl (List.forall_mem_nil _)
    · refine List.forall_mem_singleton.mpr (hnoTuple rfl (List.forall_mem_singleton.mpr ?_))
      exact hnoTuple rfl (List.forall_mem_nil _)
  obtain ⟨-, -, hfrozen, -, hequal⟩ := forms_are_stable mapWithView
  exact ⟨hequal 0 hproper hparts rfl,
    (hfrozen _ (.itself _)).2.map _ rfl .pop _ (mutatesMaps_of_changesMap rfl) rfl⟩

/-- The frozen form of a tuple is a list, which equals none. -/
example : (Value.tuple []).freeze.equal (.tuple []) = false := by decide

end Value
end TopologyConfig
