import TopologyConfig.Proofs.Value.Plain
import TopologyConfig.Value.Entries
import Mathlib.Data.List.Induction
import Mathlib.Logic.Function.Basic

/-!
The entries of a map under changes: what a key finds after one, and which keys and values there are. A list of
names without repetition, with a value for each, is a map that changes as a function does.
-/
namespace TopologyConfig

open Value

namespace Value

/-- A value is the same as a text only if it is that text, apart from labels. -/
theorem same_str_iff {k : Value} {s : String} : k.same (str s) = true ↔ k.bare = str s := by
  induction k using induction with
  | leaf k h => cases k <;> simp_all [isLeaf, same, bare, number?, sameScalar]
  | labelled l v ih => simpa [same, bare] using ih
  | _ => simp [same, bare, listItems?, mapping?]

theorem same_str_str (s t : String) : (str s).same (str t) = (s == t) := by
  rw [Bool.eq_iff_iff, same_str_iff, bare.eq_2 _ (by simp), str.injEq, beq_iff_eq]

end Value

/-- What stands in the second of two related lists is related to something in the first one. -/
theorem exists_of_forall₂ {α β : Type} {R : α → β → Prop} {xs : List α} {ys : List β} (h : List.Forall₂ R xs ys)
    {y : β} (hy : y ∈ ys) : ∃ x ∈ xs, R x y := by
  induction h with
  | nil => exact absurd hy List.not_mem_nil
  | cons hxy _ ih =>
    rcases List.mem_cons.mp hy with rfl | hy
    · exact ⟨_, List.mem_cons_self, hxy⟩
    · obtain ⟨x, hx, hr⟩ := ih hy
      exact ⟨x, List.mem_cons_of_mem _ hx, hr⟩

namespace Entries

/-- No key is the same as an earlier one. -/
def Distinct (es : Entries) : Prop := es.Pairwise (fun d e => d.1.same e.1 = false)

theorem get?_eq_none_iff {es : Entries} {key : Value} :
    get? es key = none ↔ ∀ e ∈ es, e.1.same key = false := by
  simp [get?]

theorem get?_cons_of_same {k v key : Value} (es : Entries) (h : k.same key = true) :
    get? ((k, v) :: es) key = some v := by
  simp [get?, h]

theorem get?_cons_of_not_same {k v key : Value} (es : Entries) (h : k.same key = false) :
    get? ((k, v) :: es) key = get? es key := by
  simp [get?, h]

/-- What is put in stands under the key if the key is new, and else under the key that was there. -/
theorem mem_put {key value : Value} {es : Entries} {e : Value × Value} (h : e ∈ put key value es) :
    e ∈ es ∨ (e.2 = value ∧ ((e.1 = key ∧ get? es key = none) ∨ e.1 ∈ keys es)) := by
  induction es with
  | nil =>
    have he : e = (key, value) := by simpa [put] using h
    exact Or.inr ⟨by simp [he], Or.inl ⟨by simp [he], rfl⟩⟩
  | cons d es ih =>
    obtain ⟨k, v⟩ := d
    by_cases hk : k.same key = true
    · have h' : e = (k, value) ∨ e ∈ es := by simpa [put, hk] using h
      rcases h' with rfl | ht
      · exact Or.inr (by simp [keys])
      · exact Or.inl (List.mem_cons_of_mem _ ht)
    · have h' : e = (k, v) ∨ e ∈ put key value es := by simpa [put, hk] using h
      rcases h' with rfl | ht
      · exact Or.inl List.mem_cons_self
      · rw [get?_cons_of_not_same es (by simpa using hk)]
        rcases ih ht with hin | ⟨hv, hkey⟩
        · exact Or.inl (List.mem_cons_of_mem _ hin)
        · exact Or.inr ⟨hv, hkey.imp_right fun hm => List.mem_cons_of_mem _ hm⟩

theorem remove_sublist (key : Value) (es : Entries) : (remove key es).Sublist es := by
  induction es with
  | nil => exact List.Sublist.refl _
  | cons e es ih =>
    by_cases hk : e.1.same key = true
    · simp [remove, hk]
    · simpa [remove, hk] using ih

theorem distinct_put {key value : Value} {es : Entries} (h : Distinct es) : Distinct (put key value es) := by
  induction es with
  | nil => simp [put, Distinct]
  | cons e es ih =>
    obtain ⟨k, v⟩ := e
    obtain ⟨hfirst, hrest⟩ := List.pairwise_cons.mp h
    by_cases hk : k.same key = true
    · rw [put, if_pos hk]
      exact List.pairwise_cons.mpr ⟨hfirst, hrest⟩
    · rw [put, if_neg hk]
      refine List.pairwise_cons.mpr ⟨fun d hd => ?_, ih hrest⟩
      rcases mem_put hd with hin | ⟨-, ⟨rfl, -⟩ | hin⟩
      · exact hfirst d hin
      · simpa using hk
      · obtain ⟨d', hd', he⟩ := List.mem_map.mp hin
        rw [← he]
        exact hfirst d' hd'

theorem distinct_mapValues {f : Value → Value} {es : Entries} (h : Distinct es) :
    Distinct (mapValues f es) := by
  simpa [Distinct, mapValues, List.pairwise_map] using h

theorem keys_mapValues (f : Value → Value) (es : Entries) : keys (mapValues f es) = keys es := by
  simp [keys, mapValues]

theorem mem_of_get? {es : Entries} {key v : Value} (h : get? es key = some v) :
    ∃ e ∈ es, e.1.same key = true ∧ e.2 = v := by
  obtain ⟨e, hf, rfl⟩ := Option.map_eq_some_iff.mp h
  have hs : e.1.same key = true := by simpa using List.find?_some hf
  exact ⟨e, List.mem_of_find?_eq_some hf, hs, rfl⟩

/-- To put in again what a key finds changes nothing. -/
theorem put_of_get? {es : Entries} {key v : Value} (h : get? es key = some v) : put key v es = es := by
  induction es with
  | nil => simp [get?] at h
  | cons e es ih =>
    obtain ⟨k, w⟩ := e
    by_cases hk : k.same key = true
    · have hv : w = v := by simpa [get?, hk] using h
      simp [put, hk, hv]
    · have ht : get? es key = some v := by simpa [get?, hk] using h
      simp [put, hk, ih ht]

/-- The same keys in the same order, with related values. -/
def Pointwise (R : Value → Value → Prop) (es fs : Entries) : Prop :=
  List.Forall₂ (fun e f => e.1 = f.1 ∧ R e.2 f.2) es fs

section

variable {R : Value → Value → Prop} {es fs : Entries}

theorem pointwise_mapValues {f : Value → Value} (h : ∀ e ∈ es, R e.2 (f e.2)) :
    es.Pointwise R (mapValues f es) := by
  induction es with
  | nil => exact .nil
  | cons e es ih =>
    obtain ⟨hfirst, hrest⟩ := List.forall_mem_cons.mp h
    exact .cons ⟨rfl, hfirst⟩ (ih hrest)

theorem pointwise_self (h : ∀ e ∈ es, R e.2 e.2) : es.Pointwise R es := by
  induction es with
  | nil => exact .nil
  | cons e es ih =>
    obtain ⟨hfirst, hrest⟩ := List.forall_mem_cons.mp h
    exact .cons ⟨rfl, hfirst⟩ (ih hrest)

theorem Pointwise.imp {Q : Value → Value → Prop} (h : es.Pointwise R fs) (hR : ∀ v w, R v w → Q v w) :
    es.Pointwise Q fs := by
  induction h with
  | nil => exact .nil
  | cons hef _ ih => exact .cons ⟨hef.1, hR _ _ hef.2⟩ ih

theorem Pointwise.keys_eq (h : es.Pointwise R fs) : keys fs = keys es := by
  induction h with
  | nil => rfl
  | cons hef _ ih => simpa [keys, hef.1] using ih

theorem Pointwise.of_mem (h : es.Pointwise R fs) {f : Value × Value} (hf : f ∈ fs) :
    ∃ e ∈ es, e.1 = f.1 ∧ R e.2 f.2 := exists_of_forall₂ h hf

theorem Pointwise.eq_of_forall (h : es.Pointwise R fs) (hR : ∀ e ∈ es, ∀ w, R e.2 w → w = e.2) : fs = es := by
  induction h with
  | nil => rfl
  | @cons e f es fs hef _ ih =>
    obtain ⟨hfirst, hrest⟩ := List.forall_mem_cons.mp hR
    have hvalue : f.2 = e.2 := hfirst f.2 hef.2
    rw [ih hrest, Prod.ext hef.1.symm hvalue]

theorem Pointwise.distinct (h : es.Pointwise R fs) (hd : es.Distinct) : fs.Distinct := by
  have hkeys : (keys fs).Pairwise (fun j k => j.same k = false) := by
    rw [h.keys_eq]
    exact List.pairwise_map.mpr hd
  exact List.pairwise_map.mp hkeys

theorem Pointwise.get?_eq_some (h : es.Pointwise R fs) {key v : Value} (hv : get? es key = some v) :
    ∃ w, get? fs key = some w ∧ R v w := by
  induction h with
  | nil => cases hv
  | @cons e f es fs hef _ ih =>
    cases hs : e.1.same key with
    | true =>
      rw [get?_cons_of_same es hs] at hv
      cases hv
      exact ⟨f.2, get?_cons_of_same fs (hef.1 ▸ hs), hef.2⟩
    | false =>
      rw [get?_cons_of_not_same es hs] at hv
      rw [get?_cons_of_not_same fs (hef.1 ▸ hs)]
      exact ih hv

end

/-- The keys and the values of a map have their properties, and no key stands twice. -/
structure Holds (A P : Value → Prop) (es : Entries) : Prop where
  distinct : es.Distinct
  keys : ∀ e ∈ es, A e.1
  values : ∀ e ∈ es, P e.2

section

variable {A P : Value → Prop} {es fs : Entries}

theorem holds_nil : Holds A P [] :=
  ⟨List.Pairwise.nil, fun _ h => absurd h List.not_mem_nil, fun _ h => absurd h List.not_mem_nil⟩

theorem holds_put {key v : Value} (h : es.Holds A P) (hk : get? es key = none → A key) (hv : P v) :
    (put key v es).Holds A P := by
  refine ⟨distinct_put h.distinct, fun e he => ?_, fun e he => ?_⟩
  · rcases mem_put he with hin | ⟨-, ⟨heq, hnew⟩ | hin⟩
    · exact h.keys e hin
    · exact heq ▸ hk hnew
    · obtain ⟨e', he', heq⟩ := List.mem_map.mp hin
      exact heq ▸ h.keys e' he'
  · rcases mem_put he with hin | ⟨heq, -⟩
    · exact h.values e hin
    · exact heq ▸ hv

theorem holds_mapValues {f : Value → Value} (h : es.Holds A P) (hf : ∀ e ∈ es, P (f e.2)) :
    (mapValues f es).Holds A P := by
  refine ⟨distinct_mapValues h.distinct, fun e he => ?_, fun e he => ?_⟩
  · obtain ⟨d, hd, rfl⟩ := mem_mapValues.mp he
    exact h.keys d hd
  · obtain ⟨d, hd, rfl⟩ := mem_mapValues.mp he
    exact hf d hd

theorem Holds.of_sublist (h : es.Holds A P) (hs : fs.Sublist es) : fs.Holds A P :=
  ⟨h.distinct.sublist hs, fun e he => h.keys e (hs.subset he), fun e he => h.values e (hs.subset he)⟩

theorem holds_remove {key : Value} (h : es.Holds A P) : (remove key es).Holds A P :=
  h.of_sublist (remove_sublist key es)

theorem Pointwise.holds {R : Value → Value → Prop} (h : es.Pointwise R fs)
    (hes : es.Holds A P) (hR : ∀ v w, P v → R v w → P w) : fs.Holds A P := by
  refine ⟨h.distinct hes.distinct, fun f hf => ?_, fun f hf => ?_⟩
  · obtain ⟨e, he, hkey, -⟩ := h.of_mem hf
    exact hkey ▸ hes.keys e he
  · obtain ⟨e, he, -, hr⟩ := h.of_mem hf
    exact hR e.2 f.2 (hes.values e he) hr

end

/-- The entries of a list of names, with a value for each. -/
def ofNames (names : List String) (f : String → Value) : Entries := names.map (fun name => (str name, f name))

variable {names : List String} {f : String → Value} {name : String} {v : Value}

theorem ofNames_congr {g : String → Value} (h : ∀ n ∈ names, f n = g n) :
    ofNames names f = ofNames names g := by
  apply List.map_congr_left
  intro n hn
  rw [h n hn]

theorem get?_ofNames (names : List String) (f : String → Value) (name : String) :
    get? (ofNames names f) (str name) = if name ∈ names then some (f name) else none := by
  induction names with
  | nil => rfl
  | cons n names ih =>
    by_cases hn : n = name
    · subst hn
      simp [get?, ofNames, same_str_str]
    · have hn' : name ≠ n := fun h => hn h.symm
      simpa [get?, ofNames, same_str_str, hn, hn'] using ih

theorem put_ofNames_of_mem (hn : names.Nodup) (h : name ∈ names) :
    put (str name) v (ofNames names f) = ofNames names (Function.update f name v) := by
  induction names with
  | nil => simp at h
  | cons n names ih =>
    obtain ⟨hnot, hn⟩ := List.nodup_cons.mp hn
    by_cases he : n = name
    · subst he
      have hrest : ofNames names f = ofNames names (Function.update f n v) :=
        ofNames_congr fun m hm => by
          have hne : m ≠ n := fun e => hnot (e ▸ hm)
          rw [Function.update_of_ne hne]
      rw [ofNames] at hrest
      simp [ofNames, put, same_str_str, hrest]
    · have hm : name ∈ names := (List.mem_cons.mp h).resolve_left fun e => he e.symm
      have := ih hn hm
      simpa [ofNames, put, same_str_str, he] using this

theorem put_ofNames_of_not_mem (h : name ∉ names) :
    put (str name) v (ofNames names f) = ofNames (names ++ [name]) (Function.update f name v) := by
  induction names with
  | nil => simp [ofNames, put]
  | cons n names ih =>
    have hne : n ≠ name := fun e => h (e ▸ List.mem_cons_self)
    have := ih fun hm => h (List.mem_cons_of_mem _ hm)
    simpa [ofNames, put, same_str_str, hne] using this

section puts

variable {s t : String} (v w : Value) (es : Entries)

theorem get?_put_str_self : get? (put (str s) v es) (str s) = some v := by
  induction es with
  | nil => simp [put, get?, same_str_str]
  | cons e es ih =>
    obtain ⟨k, x⟩ := e
    cases hk : k.same (str s) with
    | true => rw [put, if_pos hk, get?_cons_of_same es hk]
    | false => rw [put, if_neg (by simp [hk]), get?_cons_of_not_same _ hk, ih]

theorem same_str_of_ne (h : s ≠ t) {k : Value} (hk : k.same (str s) = true) : k.same (str t) = false := by
  rw [Bool.eq_false_iff]
  intro hk'
  have := (same_str_iff.mp hk).symm.trans (same_str_iff.mp hk')
  exact h (str.inj this)

theorem get?_put_str_of_ne (h : s ≠ t) : get? (put (str s) v es) (str t) = get? es (str t) := by
  induction es with
  | nil => simp [put, get?, same_str_str, h]
  | cons e es ih =>
    obtain ⟨k, x⟩ := e
    cases hk : k.same (str s) with
    | true =>
      have hnot := same_str_of_ne h hk
      rw [put, if_pos hk, get?_cons_of_not_same es hnot, get?_cons_of_not_same es hnot]
    | false =>
      rw [put, if_neg (by simp [hk])]
      cases ht : k.same (str t) with
      | true => rw [get?_cons_of_same _ ht, get?_cons_of_same _ ht]
      | false => rw [get?_cons_of_not_same _ ht, get?_cons_of_not_same _ ht, ih]

theorem put_put_str : put (str s) w (put (str s) v es) = put (str s) w es := by
  induction es with
  | nil => simp [put, same_str_str]
  | cons e es ih =>
    obtain ⟨k, x⟩ := e
    cases hk : k.same (str s) with
    | true => simp [put, hk]
    | false => simp [put, hk, ih]

theorem keys_put_str : keys (put (str s) v es) = if (get? es (str s)).isSome then keys es else keys es ++ [str s] := by
  induction es with
  | nil => simp [put, keys, get?]
  | cons e es ih =>
    obtain ⟨k, x⟩ := e
    cases hk : k.same (str s) with
    | true => simp [put, hk, keys, get?_cons_of_same es hk]
    | false =>
      rw [put, if_neg (by simp [hk]), get?_cons_of_not_same es hk]
      simp only [keys, List.map_cons] at ih ⊢
      rw [ih]
      split <;> simp

theorem isSome_get?_iff {es : Entries} {key : Value} : (get? es key).isSome = true ↔ ∃ k ∈ keys es, k.same key = true := by
  simp [get?, keys, List.find?_isSome]

theorem mem_put_str {es : Entries} {v : Value} {e : Value × Value} (he : e ∈ put (str s) v es) : e ∈ es ∨ (e.2 = v ∧ e.1.same (str s) = true) := by
  induction es with
  | nil =>
    obtain rfl : e = (str s, v) := by simpa [put] using he
    exact Or.inr ⟨rfl, by simp [same_str_str]⟩
  | cons d es ih =>
    obtain ⟨k, x⟩ := d
    cases hk : k.same (str s) with
    | true =>
      rw [put, if_pos hk] at he
      rcases List.mem_cons.mp he with rfl | he
      · exact Or.inr ⟨rfl, hk⟩
      · exact Or.inl (List.mem_cons_of_mem _ he)
    | false =>
      rw [put, if_neg (by simp [hk])] at he
      rcases List.mem_cons.mp he with rfl | he
      · exact Or.inl List.mem_cons_self
      · exact (ih he).imp_left (List.mem_cons_of_mem _)

/-- An entry under another key stays in its place. -/
theorem getElem?_put_of_not_same {i : Nat} {e : Value × Value} (he : es[i]? = some e) (h : e.1.same (str s) = false) :
    (put (str s) v es)[i]? = some e := by
  induction es generalizing i with
  | nil => simp at he
  | cons d es ih =>
    obtain ⟨k, x⟩ := d
    cases i with
    | zero =>
      obtain rfl : (k, x) = e := by simpa using he
      simp [put, h]
    | succ i =>
      have hrest : es[i]? = some e := by simpa using he
      cases hk : k.same (str s) with
      | true => simpa [put, hk] using hrest
      | false => simpa [put, hk] using ih hrest

theorem mapValues_put (f : Value → Value) (key : Value) :
    mapValues f (put key v es) = put key (f v) (mapValues f es) := by
  induction es with
  | nil => rfl
  | cons e es ih =>
    obtain ⟨k, x⟩ := e
    cases hk : k.same key with
    | true => simp [put, hk, mapValues]
    | false =>
      have : put key (f v) (mapValues f ((k, x) :: es)) = (k, f x) :: put key (f v) (mapValues f es) := by
        simp [mapValues, put, hk]
      rw [put, if_neg (by simp [hk]), this, ← ih]
      rfl

theorem get?_mapValues (f : Value → Value) (key : Value) : get? (mapValues f es) key = (get? es key).map f := by
  induction es with
  | nil => rfl
  | cons e es ih =>
    obtain ⟨k, x⟩ := e
    cases hk : k.same key with
    | true => simp [get?, mapValues, hk]
    | false => simpa [get?, mapValues, hk] using ih

end puts

theorem putAll_append (es ps qs : Entries) : putAll es (ps ++ qs) = putAll (putAll es ps) qs :=
  List.foldl_append

/-- A new key is put behind the others. -/
theorem put_of_get?_eq_none {es : Entries} {key value : Value} (h : get? es key = none) :
    put key value es = es ++ [(key, value)] := by
  induction es with
  | nil => rfl
  | cons e es ih =>
    obtain ⟨k, v⟩ := e
    obtain ⟨hk, hes⟩ := List.forall_mem_cons.mp (get?_eq_none_iff.mp h)
    rw [put, if_neg (by simp [hk]), ih (get?_eq_none_iff.mpr hes), List.cons_append]

/-- Distinct keys are put behind each other. -/
theorem putAll_of_distinct {es : Entries} (h : es.Distinct) : putAll [] es = es := by
  induction es using List.reverseRecOn with
  | nil => rfl
  | append_singleton es e ih =>
    obtain ⟨hes, -, hlast⟩ := List.pairwise_append.mp h
    have hnew : get? es e.1 = none := get?_eq_none_iff.mpr fun d hd => hlast d hd e (by simp)
    rw [putAll_append, ih hes]
    exact put_of_get?_eq_none hnew

/-- Pairs under keys and with values of the given kinds make a map. -/
theorem holds_ofPairs {A P : Value → Prop} {ps : Entries} (hkeys : ∀ p ∈ ps, A p.1) (hvalues : ∀ p ∈ ps, P p.2) :
    (ofPairs ps).Holds A P := by
  induction ps using List.reverseRecOn with
  | nil => exact holds_nil
  | append_singleton ps p ih =>
    have hps : (ofPairs ps).Holds A P :=
      ih (fun q hq => hkeys q (List.mem_append_left _ hq)) fun q hq => hvalues q (List.mem_append_left _ hq)
    rw [ofPairs, putAll_append]
    exact holds_put hps (fun _ => hkeys p (by simp)) (hvalues p (by simp))

theorem length_put (key value : Value) (es : Entries) :
    (put key value es).length = if (get? es key).isSome then es.length else es.length + 1 := by
  induction es with
  | nil => rfl
  | cons e es ih =>
    obtain ⟨k, v⟩ := e
    cases hk : k.same key with
    | true => simp [put, hk, get?_cons_of_same es hk]
    | false =>
      rw [put, if_neg (by simp [hk]), get?_cons_of_not_same es hk, List.length_cons, ih, List.length_cons]
      split <;> rfl

theorem length_ofPairs_le (ps : Entries) : (ofPairs ps).length ≤ ps.length := by
  induction ps using List.reverseRecOn with
  | nil => exact Nat.le_refl 0
  | append_singleton ps p ih =>
    have hput : (put p.1 p.2 (ofPairs ps)).length ≤ (ofPairs ps).length + 1 := by
      rw [length_put]
      split <;> omega
    rw [List.length_append, List.length_singleton, ofPairs, putAll_append]
    exact Nat.le_trans hput (Nat.succ_le_succ ih)

/-- Where two pairs have one key, the map is shorter. -/
theorem ofPairs_eq_self_of_length {ps : Entries} (h : (ofPairs ps).length = ps.length) : ofPairs ps = ps := by
  induction ps using List.reverseRecOn with
  | nil => rfl
  | append_singleton ps p ih =>
    have hput : ofPairs (ps ++ [p]) = put p.1 p.2 (ofPairs ps) := putAll_append [] ps [p]
    have hle := length_ofPairs_le ps
    rw [hput, length_put, List.length_append, List.length_singleton] at h
    cases hget : get? (ofPairs ps) p.1 with
    | some v =>
      rw [hget, if_pos (Option.isSome_some)] at h
      omega
    | none =>
      rw [hget, if_neg (by simp)] at h
      rw [hput, put_of_get?_eq_none hget, ih (Nat.succ.inj h)]

/-- Pairs that make a map of as many distinct entries are its entries. -/
theorem ofPairs_eq_iff {ps es : Entries} (hdistinct : es.Distinct) (hlength : ps.length = es.length) :
    ofPairs ps = es ↔ ps = es := by
  constructor
  · intro h
    rw [← h, ofPairs_eq_self_of_length (by rw [h, hlength])]
  · rintro rfl
    exact putAll_of_distinct hdistinct

/-- Distinct names are put behind each other. -/
theorem putAll_ofNames (hn : names.Nodup) : putAll [] (ofNames names f) = ofNames names f := by
  induction names using List.reverseRecOn with
  | nil => rfl
  | append_singleton names name ih =>
    obtain ⟨hn, -, hd⟩ := List.nodup_append.mp hn
    have hnot : name ∉ names := fun h => hd name h name (by simp) rfl
    have hsplit : ofNames (names ++ [name]) f = ofNames names f ++ [(str name, f name)] := by simp [ofNames]
    calc
      putAll [] (ofNames (names ++ [name]) f) = put (str name) (f name) (ofNames names f) := by
        rw [hsplit, putAll_append, ih hn]
        rfl
      _ = ofNames (names ++ [name]) f := by
        rw [put_ofNames_of_not_mem hnot, Function.update_eq_self]

end Entries
end TopologyConfig
