import TopologyConfig.Proofs.ConfigMap.Association
import TopologyConfig.Proofs.ConfigMap.LayerValidity
import TopologyConfig.Proofs.Schema.Numbers

/-!
Merging what a merge gave, as the layer above the lowest one. Its keys and the values that replace one another stay as
they are; under an accumulator key the entries of the lowest and of the highest layer are there already, and are added
once more.
-/
namespace TopologyConfig

open Value

section

variable {x : Binary64}

theorem Value.withNaN_withNaN (v : Value) : (v.withNaN x).withNaN x = v.withNaN x := by
  induction v using Value.induction with
  | leaf v h =>
    cases v with
    | float y => by_cases hy : y.isNaN = true <;> simp [withNaN, hy]
    | list | map => cases h
    | _ => rfl
  | list vs ih => simpa using ih
  | map es ih => simpa [mapValues_mapValues] using mapValues_congr ih
  | _ => rfl

end

namespace ConfigMap

/-- The entries that a layer adds under an accumulator key. -/
def addedUnder (name : String) (layer : Value) : List Value :=
  (valuesUnder name (namedEntries layer)).flatMap contribution

/-- A value under an accumulator key, with entries put before and after its own; without any it stays as it is. -/
def surrounded (before after : List Value) (v : Value) : Value :=
  if (before ++ after).isEmpty then v else .list (before ++ contribution v ++ after)

/-- Entries with those that two layers add under accumulator keys put around the ones that are there. -/
def registeredAgain (r : Registry) (lowest highest : Value) (es : Entries) : Entries :=
  es.map fun e =>
    match e.1 with
    | .str name =>
      if r.isAccumulator e.1 then (e.1, surrounded (addedUnder name lowest) (addedUnder name highest) e.2) else e
    | _ => e

section

variable {xs ys : List String}

/-- Names that are there already change nothing. -/
theorem eraseDups_append_of_subset (h : ys ⊆ xs) : (xs ++ ys).eraseDups = xs.eraseDups := by
  induction ys using List.reverseRecOn with
  | nil => rw [List.append_nil]
  | append_singleton ys y ih =>
    obtain ⟨hys, hy⟩ := List.append_subset.mp h
    rw [← List.append_assoc, eraseDups_concat, ih hys, if_pos]
    exact List.mem_eraseDups.mpr (hy List.mem_cons_self)

theorem eraseDups_append_append_self : (xs ++ (xs ++ ys)).eraseDups = (xs ++ ys).eraseDups := by
  rw [← List.append_assoc, ← eraseDups_eraseDups_append, eraseDups_append_of_subset (List.Subset.refl xs),
    eraseDups_eraseDups_append]

end

section

variable {before after : List Value} {v : Value} {x : Binary64}

theorem flatMap_contribution_of_all_isNull {vs : List Value} (h : vs.all isNull = true) :
    vs.flatMap contribution = [] := by
  refine List.flatMap_eq_nil_iff.mpr fun v hv => ?_
  have hnull := List.all_eq_true.mp h v hv
  cases v <;> first | rfl | cases hnull

/-- What stands between the values of other layers keeps its place between their entries. -/
theorem layeredValue_surrounded (hplain : v.thaw = v)
    (hv : v = .null ∧ (before ++ after).all isNull = true ∨ ∃ xs, v = .list xs) :
    layeredValue true (before ++ v :: after) =
      surrounded (before.flatMap contribution) (after.flatMap contribution) v := by
  rcases hv with ⟨rfl, hnull⟩ | ⟨xs, rfl⟩
  · have hall : (before ++ .null :: after).all isNull = true := by
      simpa [isNull] using hnull
    rw [List.all_append, Bool.and_eq_true] at hnull
    rw [layeredValue, if_pos rfl, if_pos hall, flatMap_contribution_of_all_isNull hnull.1,
      flatMap_contribution_of_all_isNull hnull.2]
    rfl
  · have hsome : (before ++ .list xs :: after).all isNull = false := by simp [isNull]
    have hself : contribution (.list xs) = xs := by
      rw [thaw_list] at hplain
      exact contribution_list_of_map_thaw (Value.list.inj hplain)
    rw [layeredValue, if_pos rfl, hsome, if_neg Bool.false_ne_true, List.flatMap_append, List.flatMap_cons, surrounded]
    split
    · next hempty =>
      obtain ⟨hbefore, hafter⟩ := List.append_eq_nil_iff.mp (List.isEmpty_iff.mp hempty)
      rw [hbefore, hafter, hself, List.append_nil, List.nil_append]
    · rw [List.append_assoc]

theorem withNaN_eq_null_or_list (hv : v = .null ∨ ∃ xs, v = .list xs ∧ xs.map thaw = xs)
    (hplain : (v.withNaN x).thaw = v.withNaN x) :
    v.withNaN x = .null ∨ ∃ xs, v.withNaN x = .list xs ∧ xs.map thaw = xs := by
  rcases hv with rfl | ⟨xs, rfl, -⟩
  · exact .inl rfl
  · rw [withNaN_list, thaw_list] at hplain
    exact .inr ⟨_, withNaN_list _ _, Value.list.inj hplain⟩

/-- Which value that is no number stands in a place does not matter for what is put around it. -/
theorem withNaN_surrounded_withNaN (hv : v = .null ∨ ∃ xs, v = .list xs ∧ xs.map thaw = xs)
    (hplain : (v.withNaN x).thaw = v.withNaN x) :
    (surrounded before after (v.withNaN x)).withNaN x = (surrounded before after v).withNaN x := by
  rcases hv with rfl | ⟨xs, rfl, hxs⟩
  · rfl
  · have hold : contribution (.list xs) = xs := contribution_list_of_map_thaw hxs
    have hnew : contribution (.list (xs.map (withNaN x))) = xs.map (withNaN x) := by
      rw [withNaN_list, thaw_list] at hplain
      exact contribution_list_of_map_thaw (Value.list.inj hplain)
    rw [surrounded, surrounded]
    split
    · exact withNaN_withNaN _
    · simp only [withNaN_list, hold, hnew, List.map_append, List.map_map, Function.comp_def, withNaN_withNaN]

/-- A value stays what it is only if nothing is put around it. -/
theorem withNaN_surrounded_eq_iff (hv : v = .null ∨ ∃ xs, v = .list xs ∧ xs.map thaw = xs) :
    (surrounded before after v).withNaN x = v.withNaN x ↔ before ++ after = [] := by
  constructor
  · intro h
    by_contra hne
    rw [surrounded, if_neg (mt List.isEmpty_iff.mp hne), withNaN_list] at h
    rcases hv with rfl | ⟨xs, rfl, hxs⟩
    · cases h
    · rw [withNaN_list, contribution_list_of_map_thaw hxs] at h
      have hlength := congrArg List.length (Value.list.inj h)
      simp only [List.length_map, List.length_append] at hlength
      have hlengths : before.length = 0 ∧ after.length = 0 := by omega
      exact hne (List.append_eq_nil_iff.mpr
        ⟨List.length_eq_zero_iff.mp hlengths.1, List.length_eq_zero_iff.mp hlengths.2⟩)
  · intro hnil
    rw [surrounded, hnil, if_pos List.isEmpty_nil]

end

/-- What an accumulated value contributes may stand under its key, if the value may. -/
theorem accepts_contribution {r : Registry} {key v : Value} {element : Shape}
    (hshape : r.shape? key = some (.listOf element)) (hv : v = .null ∨ ∃ xs, v = .list xs ∧ xs.map thaw = xs)
    (h : r.allows key v = true) : ∀ y ∈ contribution v, element.accepts y = true := by
  rcases hv with rfl | ⟨xs, rfl, hxs⟩
  · exact fun y hy => absurd hy List.not_mem_nil
  · have haccepts := (Registry.allows_iff.mp h _ hshape).resolve_left nofun
    rw [Shape.accepts, items?] at haccepts
    rw [contribution_list_of_map_thaw hxs]
    exact List.all_eq_true.mp haccepts

section

variable {r : Registry} {layers vs : List Value}

/-- A layer whose plain form is one of a document. -/
def IsPlainLayer (layer : Value) : Prop := IsLayer layer ∧ layer.thaw.IsDocument

theorem isDocument_contribution {y : Value} (hv : v.thaw.IsDocument) (hy : y ∈ contribution v) : y.IsDocument := by
  rw [← asEntries_thaw] at hy
  generalize v.thaw = w at hv hy
  have hself : y ∈ [w] → y.IsDocument := fun hone => List.mem_singleton.mp hone ▸ hv
  cases hv with
  | null => exact absurd hy List.not_mem_nil
  | list xs hxs => exact hxs y hy
  | _ => exact hself hy

theorem isDocument_layeredValue {accumulates : Bool} (h : ∀ v ∈ vs, v.thaw.IsDocument) :
    (layeredValue accumulates vs).IsDocument := by
  cases accumulates with
  | false =>
    cases hlast : vs.getLast? with
    | none => simpa [layeredValue, hlast] using .null
    | some v => simpa [layeredValue, hlast] using h v (List.mem_of_getLast? hlast)
  | true =>
    rw [layeredValue, if_pos rfl]
    split
    · exact .null
    · refine .list _ fun y hy => ?_
      obtain ⟨v, hv, hy⟩ := List.mem_flatMap.mp hy
      exact isDocument_contribution (h v hv) hy

theorem thaw_of_mapping? {layer : Value} {es : Entries} (h : layer.mapping? = some es) :
    layer.thaw = .map (mapValues thaw es) := by
  induction layer using Value.induction with
  | leaf layer hl => cases layer <;> simp_all [isLeaf, mapping?]
  | labelled l layer ih => rw [thaw_labelled, ih h]
  | _ => simp_all [mapping?]

theorem isDocument_of_mem_namedEntries {layer : Value} (h : layer.thaw.IsDocument) {p : String × Value}
    (hp : p ∈ namedEntries layer) : p.2.thaw.IsDocument := by
  obtain ⟨es, hes, he⟩ := mem_namedEntries_iff.mp hp
  rw [thaw_of_mapping? hes] at h
  cases h with
  | map _ _ _ hvalues => exact hvalues _ (mem_mapValues.mpr ⟨_, he, rfl⟩)

theorem plainEntries_layered (r : Registry) (layers : List Value) :
    (layered r layers).plainEntries = (layered r layers).entries := by
  rw [plainEntries, thawEntries_eq_mapValues, mapValues]
  refine (List.map_congr_left fun e he => ?_).trans (List.map_id _)
  obtain ⟨name, -, rfl⟩ := List.mem_map.mp he
  exact Prod.ext rfl (thaw_layeredValue _ _)

/-- What plain layers make can be written as a document. -/
theorem isDocument_layered (h : ∀ layer ∈ layers, IsPlainLayer layer) : (layered r layers).toValue.IsDocument := by
  rw [toValue, plainEntries_layered]
  refine .map _ (fun e he => ?_) (distinct_ofNames (nodup_eraseDups _)) fun e he => ?_
  · obtain ⟨name, -, rfl⟩ := List.mem_map.mp he
    rfl
  · obtain ⟨name, -, rfl⟩ := List.mem_map.mp he
    refine isDocument_layeredValue fun v hv => ?_
    obtain ⟨p, hp, rfl⟩ := List.mem_map.mp hv
    obtain ⟨layer, hlayer, hin⟩ := List.mem_flatMap.mp (List.mem_filter.mp hp).1
    exact isDocument_of_mem_namedEntries (h layer hlayer).2 hin

end

/-- The named entries of the four layers of a configuration. -/
structure Stack where
  defaults : List (String × Value)
  cluster : List (String × Value)
  overrides : List (String × Value)
  job : List (String × Value)

namespace Stack

def entries (k : Stack) : List (String × Value) := k.defaults ++ k.cluster ++ k.overrides ++ k.job

def names (k : Stack) : List String := (k.entries.map (·.1)).eraseDups

/-- What the layers make under a name. -/
def value (r : Registry) (k : Stack) (name : String) : Value :=
  layeredValue (r.isAccumulator (.str name)) (valuesUnder name k.entries)

/-- What the layers make, as it is read back by name. -/
def readBack (r : Registry) (x : Binary64) (k : Stack) : List (String × Value) :=
  k.names.map fun name => (name, (k.value r name).withNaN x)

/-- What the layers made takes the place of the cluster's layer, and perhaps that of the defaults. -/
structure IsAgain (r : Registry) (x : Binary64) (k l : Stack) : Prop where
  defaults : l.defaults = k.defaults ∨ l.defaults = k.readBack r x
  cluster : l.cluster = k.readBack r x
  overrides : l.overrides = k.overrides
  job : l.job = k.job
  /-- What overrides replaces, and does not accumulate. -/
  replacing : ∀ p ∈ k.overrides, r.isAccumulator (.str p.1) = false

variable {r : Registry} {x : Binary64} {k l : Stack} {name : String}

theorem thaw_value (r : Registry) (k : Stack) (name : String) : (k.value r name).thaw = k.value r name :=
  thaw_layeredValue _ _

theorem nodup_names (k : Stack) : k.names.Nodup := nodup_eraseDups _

theorem map_readBack : (k.readBack r x).map (·.1) = k.names := by
  rw [readBack, List.map_map]
  exact List.map_id _

theorem valuesUnder_readBack (h : name ∈ k.names) :
    valuesUnder name (k.readBack r x) = [(k.value r name).withNaN x] := by
  rw [readBack, valuesUnder_map_names k.nodup_names, if_pos h]

theorem valuesUnder_entries (k : Stack) (name : String) : valuesUnder name k.entries =
    valuesUnder name k.defaults ++ valuesUnder name k.cluster ++ valuesUnder name k.overrides ++
      valuesUnder name k.job := by
  simp only [entries, valuesUnder_append]

theorem valuesUnder_of_isAccumulator {ps : List (String × Value)}
    (h : ∀ p ∈ ps, r.isAccumulator (.str p.1) = false) (ha : r.isAccumulator (.str name) = true) :
    valuesUnder name ps = [] := by
  simp only [valuesUnder, List.map_eq_nil_iff, List.filter_eq_nil_iff, beq_iff_eq]
  rintro p hp rfl
  exact absurd (h p hp) (by simp [ha])

/-- An accumulated value is null if all values are, and else a list. -/
theorem value_of_isAccumulator (ha : r.isAccumulator (.str name) = true) :
    k.value r name = .null ∧ (valuesUnder name k.entries).all isNull = true ∨
      k.value r name = .list ((valuesUnder name k.entries).flatMap contribution) := by
  rw [value, ha, layeredValue, if_pos rfl]
  split
  · next hnull => exact .inl ⟨rfl, hnull⟩
  · exact .inr rfl

/-- What accumulated is null, or a list of plain entries. -/
theorem value_eq_null_or_list (ha : r.isAccumulator (.str name) = true) :
    k.value r name = .null ∨ ∃ xs, k.value r name = .list xs ∧ xs.map thaw = xs := by
  rcases value_of_isAccumulator (k := k) ha with ⟨hnull, -⟩ | hlist
  · exact .inl hnull
  · have hplain := thaw_value r k name
    rw [hlist, thaw_list] at hplain
    exact .inr ⟨_, hlist, Value.list.inj hplain⟩

theorem contribution_value (ha : r.isAccumulator (.str name) = true) :
    contribution (k.value r name) = (valuesUnder name k.entries).flatMap contribution := by
  rcases value_of_isAccumulator (k := k) ha with ⟨hnull, hall⟩ | hlist
  · rw [hnull, flatMap_contribution_of_all_isNull hall]
    rfl
  · have hplain := thaw_value r k name
    rw [hlist, thaw_list] at hplain
    rw [hlist, contribution_list_of_map_thaw (Value.list.inj hplain)]

theorem registeredAgain_layeredEntries (lowest highest : Value) :
    registeredAgain r lowest highest (layeredEntries r k.entries) = Entries.ofNames k.names fun name =>
      if r.isAccumulator (.str name) then
        surrounded (addedUnder name lowest) (addedUnder name highest) (k.value r name)
      else k.value r name := by
  have hentries : layeredEntries r k.entries = Entries.ofNames k.names (k.value r) := rfl
  rw [hentries, registeredAgain, Entries.ofNames, Entries.ofNames, List.map_map]
  refine List.map_congr_left fun name _ => ?_
  dsimp only [Function.comp]
  split <;> rfl

namespace IsAgain

variable (h : IsAgain r x k l)

include h

/-- The names and their order stay. -/
theorem names_eq : l.names = k.names := by
  have hsubset : l.overrides.map (·.1) ++ l.job.map (·.1) ⊆ k.names := by
    rw [h.overrides, h.job]
    intro n hn
    simp only [names, entries, List.map_append, List.mem_eraseDups, List.mem_append] at hn ⊢
    tauto
  have hlowest : (l.defaults.map (·.1) ++ k.names).eraseDups = k.names := by
    rcases h.defaults with hd | hd
    · rw [hd, names, eraseDups_append_eraseDups, entries, List.append_assoc, List.append_assoc, List.map_append,
        eraseDups_append_append_self]
    · rw [hd, map_readBack, eraseDups_append_of_subset (List.Subset.refl _), eraseDups_of_nodup k.nodup_names]
  have hall : l.entries.map (·.1) =
      (l.defaults.map (·.1) ++ k.names) ++ (l.overrides.map (·.1) ++ l.job.map (·.1)) := by
    simp only [entries, h.cluster, List.map_append, map_readBack, List.append_assoc]
  rw [names, hall, eraseDups_append_of_subset fun n hn => List.mem_append_right _ (hsubset hn), hlowest]

theorem valuesUnder_entries (hname : name ∈ k.names) : valuesUnder name l.entries =
    valuesUnder name l.defaults ++ (k.value r name).withNaN x ::
      (valuesUnder name k.overrides ++ valuesUnder name k.job) := by
  rw [Stack.valuesUnder_entries, h.cluster, valuesUnder_readBack hname, h.overrides, h.job]
  simp

/-- A value that replaced another one does so again. -/
theorem value_of_replacing (hname : name ∈ k.names) (ha : r.isAccumulator (.str name) = false)
    (hplain : ((k.value r name).withNaN x).thaw = (k.value r name).withNaN x) :
    l.value r name = (k.value r name).withNaN x ∨ l.value r name = k.value r name := by
  have hvalue : ∀ m : Stack, m.value r name = ((valuesUnder name m.entries).getLast?.getD .null).thaw := by
    intro m
    rw [value, ha]
    rfl
  rw [hvalue l, h.valuesUnder_entries hname]
  rcases List.eq_nil_or_concat (valuesUnder name k.overrides ++ valuesUnder name k.job) with hnil | ⟨vs, v, hlast⟩
  · left
    rw [hnil, List.getLast?_concat]
    exact hplain
  · right
    rw [hvalue k, Stack.valuesUnder_entries, List.append_assoc _ _ (valuesUnder name k.job), hlast]
    simp [List.getLast?_append, List.getLast?_cons]

/-- What accumulated stands between what the defaults and the job add once more. -/
theorem value_of_accumulating (hname : name ∈ k.names) (ha : r.isAccumulator (.str name) = true)
    (hplain : ((k.value r name).withNaN x).thaw = (k.value r name).withNaN x) :
    l.value r name = surrounded ((valuesUnder name l.defaults).flatMap contribution)
      ((valuesUnder name k.job).flatMap contribution) ((k.value r name).withNaN x) := by
  rw [value, h.valuesUnder_entries hname, valuesUnder_of_isAccumulator h.replacing ha, List.nil_append, ha]
  refine layeredValue_surrounded hplain ?_
  rcases value_of_isAccumulator (k := k) ha with ⟨hnull, hall⟩ | hlist
  · left
    rw [hnull]
    refine ⟨rfl, ?_⟩
    rw [Stack.valuesUnder_entries] at hall
    simp only [List.all_append, Bool.and_eq_true] at hall ⊢
    refine ⟨?_, hall.2⟩
    rcases h.defaults with hd | hd
    · rw [hd]
      exact hall.1.1.1
    · rw [hd, valuesUnder_readBack hname, hnull]
      rfl
  · right
    rw [hlist, withNaN_list]
    exact ⟨_, rfl⟩

/-- Every entry that was accumulated is one that the layers had before, or one that was read back. -/
theorem accepts_of_accumulating {element : Shape} (hshape : r.shape? (.str name) = some (.listOf element))
    (hname : name ∈ k.names) (ha : r.isAccumulator (.str name) = true)
    (hplain : ((k.value r name).withNaN x).thaw = (k.value r name).withNaN x)
    (hallowed : r.allows (.str name) (k.value r name) = true) :
    ∀ y ∈ (valuesUnder name l.entries).flatMap contribution, element.accepts y = true := by
  have hold := accepts_contribution hshape (value_eq_null_or_list ha) hallowed
  rw [contribution_value ha, Stack.valuesUnder_entries] at hold
  simp only [List.flatMap_append, List.forall_mem_append] at hold
  obtain ⟨⟨⟨hdefaults, -⟩, hoverrides⟩, hjob⟩ := hold
  have hread : ∀ y ∈ contribution ((k.value r name).withNaN x), element.accepts y = true :=
    accepts_contribution hshape (withNaN_eq_null_or_list (value_eq_null_or_list ha) hplain)
      (Registry.allows_withNaN x hallowed)
  have hlowest : ∀ y ∈ (valuesUnder name l.defaults).flatMap contribution, element.accepts y = true := by
    rcases h.defaults with hd | hd
    · rwa [hd]
    · rw [hd, valuesUnder_readBack hname]
      simpa using hread
  rw [h.valuesUnder_entries hname]
  simp only [List.flatMap_append, List.flatMap_cons, List.forall_mem_append]
  exact ⟨hlowest, hread, hoverrides, hjob⟩

/-- What may stand under a name may still stand there. -/
theorem allows_value (hr : r.AccumulatesLists) (hname : name ∈ k.names)
    (hplain : ((k.value r name).withNaN x).thaw = (k.value r name).withNaN x)
    (hallowed : r.allows (.str name) (k.value r name) = true) : r.allows (.str name) (l.value r name) = true := by
  cases ha : r.isAccumulator (.str name) with
  | false =>
    rcases h.value_of_replacing hname ha hplain with hread | hsame
    · rw [hread]
      exact Registry.allows_withNaN x hallowed
    · rwa [hsame]
  | true =>
    obtain ⟨element, hshape⟩ := hr.shape? ha
    refine Registry.allows_iff.mpr fun s hs => ?_
    obtain rfl : Shape.listOf element = s := by simpa [hshape] using hs
    rcases value_of_isAccumulator (k := l) ha with ⟨hnull, -⟩ | hlist
    · exact .inl hnull
    · rw [hlist, Shape.accepts, items?]
      exact .inr (List.all_eq_true.mpr (h.accepts_of_accumulating hshape hname ha hplain hallowed))

variable {lowest highest : Value} (hlowest : namedEntries lowest = l.defaults)
  (hhighest : namedEntries highest = k.job)

include hlowest hhighest

/-- The map that is made once more. -/
theorem withNaN_layeredEntries
    (hplain : ∀ name ∈ k.names, ((k.value r name).withNaN x).thaw = (k.value r name).withNaN x) :
    mapValues (withNaN x) (layeredEntries r l.entries) =
      mapValues (withNaN x) (registeredAgain r lowest highest (layeredEntries r k.entries)) := by
  have hentries : layeredEntries r l.entries = Entries.ofNames l.names (l.value r) := rfl
  rw [hentries, registeredAgain_layeredEntries, h.names_eq, Entries.ofNames, Entries.ofNames, mapValues, mapValues,
    List.map_map, List.map_map]
  refine List.map_congr_left fun name hname => ?_
  dsimp only [Function.comp]
  congr 1
  cases ha : r.isAccumulator (.str name) with
  | false =>
    rw [if_neg Bool.false_ne_true]
    rcases h.value_of_replacing hname ha (hplain name hname) with hread | hsame
    · rw [hread, withNaN_withNaN]
    · rw [hsame]
  | true =>
    rw [if_pos rfl, h.value_of_accumulating hname ha (hplain name hname), addedUnder, addedUnder, hlowest, hhighest]
    exact withNaN_surrounded_withNaN (value_eq_null_or_list ha) (hplain name hname)

/-- A layer that is merged once more adds nothing under names that there are not. -/
theorem addedUnder_of_not_mem (hname : name ∉ k.names) :
    addedUnder name lowest = [] ∧ addedUnder name highest = [] := by
  have hnone : valuesUnder name l.entries = [] :=
    (valuesUnder_eq_nil_iff name l.entries).mpr (by rw [← names, h.names_eq]; exact hname)
  rw [Stack.valuesUnder_entries, h.job] at hnone
  simp only [List.append_eq_nil_iff] at hnone
  rw [addedUnder, addedUnder, hlowest, hhighest, hnone.1.1.1, hnone.2]
  exact ⟨rfl, rfl⟩

/-- What is made once more is what was there exactly if neither the lowest nor the highest layer adds anything. -/
theorem registeredAgain_eq_iff :
    mapValues (withNaN x) (registeredAgain r lowest highest (layeredEntries r k.entries)) =
        mapValues (withNaN x) (layeredEntries r k.entries) ↔
      ∀ name, r.isAccumulator (.str name) = true → addedUnder name lowest = [] ∧ addedUnder name highest = [] := by
  have hentries : layeredEntries r k.entries = Entries.ofNames k.names (k.value r) := rfl
  have hpointwise : mapValues (withNaN x) (registeredAgain r lowest highest (layeredEntries r k.entries)) =
        mapValues (withNaN x) (layeredEntries r k.entries) ↔
      ∀ name ∈ k.names, r.isAccumulator (.str name) = true →
        addedUnder name lowest ++ addedUnder name highest = [] := by
    rw [registeredAgain_layeredEntries, hentries, Entries.ofNames, Entries.ofNames, mapValues, mapValues, List.map_map,
      List.map_map, List.map_inj_left]
    refine forall₂_congr fun name _ => ?_
    dsimp only [Function.comp]
    rw [Prod.mk.injEq, and_iff_right rfl]
    cases ha : r.isAccumulator (.str name) with
    | false => simp
    | true =>
      rw [if_pos rfl, withNaN_surrounded_eq_iff (value_eq_null_or_list ha)]
      simp
  rw [hpointwise]
  constructor
  · intro hall name ha
    by_cases hname : name ∈ k.names
    · exact List.append_eq_nil_iff.mp (hall name hname ha)
    · exact h.addedUnder_of_not_mem hlowest hhighest hname
  · exact fun hall name _ ha => List.append_eq_nil_iff.mpr (hall name ha)

end IsAgain

def ofLayers (defaults cluster overrides job : Value) : Stack :=
  ⟨namedEntries defaults, namedEntries cluster, namedEntries overrides, namedEntries job⟩

theorem layered_eq (r : Registry) (defaults cluster overrides job : Value) :
    layered r [defaults, cluster, overrides, job] =
      ⟨r, layeredEntries r (ofLayers defaults cluster overrides job).entries, false⟩ := by
  simp [layered, entries, ofLayers]

theorem namedEntries_readBack (r : Registry) (x : Binary64) (k : Stack) :
    namedEntries (.map (mapValues (withNaN x) (layeredEntries r k.entries))) = k.readBack r x := by
  have hentries : layeredEntries r k.entries = Entries.ofNames k.names (k.value r) := rfl
  rw [hentries]
  simp [namedEntries, mapping?, Entries.ofNames, mapValues, List.filterMap_map, readBack, Function.comp_def]

end Stack

section

variable {r : Registry} {x : Binary64} {defaults cluster overrides job defaults' : Value} {c d : ConfigMap}

/-- Four layers, merged again with the result read back in the place of the second one, and perhaps of the lowest one:
no value becomes invalid, and nothing changes but the entries that are registered once more. -/
theorem layered_again (hr : r.AccumulatesLists) (hc : layered r [defaults, cluster, overrides, job] = c)
    (hd : layered r [defaults', .map (mapValues (withNaN x) c.entries), overrides, job] = d)
    (hplain : ∀ layer ∈ [defaults, cluster, overrides, job], IsPlainLayer layer)
    (hreplacing : ∀ p ∈ namedEntries overrides, r.isAccumulator (.str p.1) = false)
    (hdefaults : defaults' = defaults ∨ defaults' = .map (mapValues (withNaN x) c.entries))
    (hallowed : ∀ e ∈ c.entries, r.allows e.1 e.2 = true) :
    (∀ e ∈ d.entries, r.allows e.1 e.2 = true) ∧
      mapValues (withNaN x) d.entries = mapValues (withNaN x) (registeredAgain r defaults' job c.entries) ∧
      (mapValues (withNaN x) (registeredAgain r defaults' job c.entries) = mapValues (withNaN x) c.entries ↔
        ∀ name, r.isAccumulator (.str name) = true → addedUnder name defaults' = [] ∧ addedUnder name job = []) := by
  let k := Stack.ofLayers defaults cluster overrides job
  let l := Stack.ofLayers defaults' (.map (mapValues (withNaN x) c.entries)) overrides job
  have hentries : c.entries = layeredEntries r k.entries := by rw [← hc, Stack.layered_eq]
  have hread : namedEntries (.map (mapValues (withNaN x) c.entries)) = k.readBack r x := by
    rw [hentries, Stack.namedEntries_readBack]
  have hagain : k.IsAgain r x l := {
    defaults := hdefaults.imp (congrArg namedEntries) fun h => (congrArg namedEntries h).trans hread
    cluster := hread
    overrides := rfl
    job := rfl
    replacing := hreplacing }
  have hmem : ∀ name ∈ k.names, (.str name, k.value r name) ∈ c.entries := by
    intro name hname
    rw [hentries]
    exact List.mem_map.mpr ⟨name, hname, rfl⟩
  have hdocument : (Value.map c.entries).IsDocument := by
    have hmade := isDocument_layered (r := r) hplain
    rwa [toValue, plainEntries_layered, hc] at hmade
  have hvalues : ∀ name ∈ k.names, ((k.value r name).withNaN x).thaw = (k.value r name).withNaN x := by
    intro name hname
    cases hdocument with
    | map _ _ _ h => exact (isDocument_withNaN x (h _ (hmem name hname))).thaw_eq
  have hentries' : d.entries = layeredEntries r l.entries := by rw [← hd, Stack.layered_eq]
  rw [hentries', hentries]
  refine ⟨fun e he => ?_, hagain.withNaN_layeredEntries rfl rfl hvalues, hagain.registeredAgain_eq_iff rfl rfl⟩
  obtain ⟨name, hname, rfl⟩ := List.mem_map.mp he
  have hin : name ∈ k.names := by rwa [← hagain.names_eq]
  exact hagain.allows_value hr hin (hvalues name hin) (hallowed _ (hmem name hin))

end

end ConfigMap
end TopologyConfig
