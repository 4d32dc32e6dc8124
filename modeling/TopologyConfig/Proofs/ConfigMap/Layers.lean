import TopologyConfig.ConfigMap.Merge
import TopologyConfig.Proofs.ConfigMap.Basic

/-!
The closed form of a merge of layers. The keys stand in the order in which they first appear. Under an ordinary
key the last layer that has it wins; under an accumulator key the entries of all layers follow one another.
-/
namespace TopologyConfig.ConfigMap

open Value

/-- The entries that a value adds under an accumulator key: none for null, the items of a list or tuple, and
otherwise the value itself, all in plain form. -/
def contribution (v : Value) : List Value :=
  match v.bare with
  | .null => []
  | w =>
    match w.items? with
    | some xs => xs.map thaw
    | none => [w.thaw]

def isNull : Value → Bool
  | .null => true
  | _ => false

/-- What a merge makes of the values that the layers have under a key, lowest layer first. -/
def layeredValue (accumulates : Bool) (vs : List Value) : Value :=
  if accumulates then
    if vs.all isNull then .null else .list (vs.flatMap contribution)
  else (vs.getLast?.getD .null).thaw

/-- The entries of a layer, by name; null has none. -/
def namedEntries (layer : Value) : List (String × Value) :=
  (layer.mapping?.getD []).filterMap fun e =>
    match e.1 with
    | .str name => some (name, e.2)
    | _ => none

/-- The values under a name, in their order. -/
def valuesUnder (name : String) (ps : List (String × Value)) : List Value :=
  (ps.filter (·.1 == name)).map (·.2)

/-- The entries that a merge makes of named ones. -/
def layeredEntries (r : Registry) (ps : List (String × Value)) : Entries :=
  Entries.ofNames (ps.map (·.1)).eraseDups
    fun name => layeredValue (r.isAccumulator (.str name)) (valuesUnder name ps)

/-- The open map that the layers make. -/
def layered (r : Registry) (layers : List Value) : ConfigMap :=
  ⟨r, layeredEntries r (layers.flatMap namedEntries), false⟩

/-- The value can be a layer: null, or a mapping whose keys are strings. -/
def IsLayer (v : Value) : Prop :=
  v = .null ∨ ∃ es, v.mapping? = some es ∧ ∀ e ∈ es, e.1.isString = true

/-- What a merge puts under a key that holds a value already, or none. -/
def combined (accumulates : Bool) (held : Option Value) (v : Value) : Value :=
  if accumulates then
    match v with
    | .null => held.getD .null
    | v => .list ((asEntries (held.getD .null)).map thaw ++ contribution v)
  else v.thaw

theorem asEntries_thaw (v : Value) : asEntries v.thaw = contribution v := by
  induction v using induction with
  | leaf v h => cases v <;> simp_all [isLeaf, thaw, asEntries, listItems?, contribution, bare, items?]
  | labelled l v ih => simpa [contribution, bare] using ih
  | _ => simp [asEntries, listItems?, contribution, bare, items?]

theorem map_thaw_contribution (v : Value) : (contribution v).map thaw = contribution v := by
  unfold contribution
  split
  · rfl
  · split
    · exact map_thaw_map_thaw _
    · simp [thaw_thaw]

theorem mergeEntry_str {c : ConfigMap} (ho : c.isSealed = false) (s : String) (v : Value) :
    c.mergeEntry (.str s) v = .ok { c with
      entries := Entries.put (.str s)
        (combined (c.registry.isAccumulator (.str s)) (Entries.get? c.entries (.str s)) v) c.entries } := by
  unfold mergeEntry combined
  split
  · split
    · rw [setDefault, find?_str]
      cases hg : Entries.get? c.entries (.str s) with
      | none => simp [set_str ho, bind, Except.bind, Except.map, pure, Except.pure]
      | some w => simp [Entries.put_of_get? hg, bind, Except.bind, Except.map, pure, Except.pure]
    · rw [getD, find?_str]
      simp only [bind, Except.bind, pure, Except.pure, set_str ho, thaw_list, List.map_append, asEntries_thaw,
        map_thaw_contribution]
  · rw [set_str ho]

theorem asEntries_layeredValue (vs : List Value) :
    asEntries (layeredValue true vs) = vs.flatMap contribution := by
  by_cases h : vs.all isNull = true
  · have hc : ∀ v ∈ vs, contribution v = [] := by
      intro v hv
      have hn := List.all_eq_true.mp h v hv
      cases v <;> simp_all [isNull, contribution, bare]
    simp [layeredValue, h, asEntries, List.flatMap_eq_nil_iff.mpr hc]
  · simp [layeredValue, h, asEntries, listItems?]

theorem thaw_layeredValue (accumulates : Bool) (vs : List Value) :
    (layeredValue accumulates vs).thaw = layeredValue accumulates vs := by
  unfold layeredValue
  split
  · split
    · rfl
    · simp [List.map_flatMap, map_thaw_contribution]
  · exact thaw_thaw _

theorem map_thaw_asEntries_layeredValue (vs : List Value) :
    (asEntries (layeredValue true vs)).map thaw = asEntries (layeredValue true vs) := by
  simp [asEntries_layeredValue, List.map_flatMap, map_thaw_contribution]

/-- One more layer that has the key. -/
theorem layeredValue_concat (accumulates : Bool) (vs : List Value) (v : Value) :
    layeredValue accumulates (vs ++ [v]) =
      combined accumulates (if vs = [] then none else some (layeredValue accumulates vs)) v := by
  cases accumulates with
  | false => simp [layeredValue, combined]
  | true =>
    have hheld : (asEntries ((if vs = [] then none else some (layeredValue true vs)).getD .null)).map thaw =
        vs.flatMap contribution := by
      split
      · simp_all [asEntries]
      · rw [Option.getD_some, map_thaw_asEntries_layeredValue, asEntries_layeredValue]
    by_cases hv : v = .null
    · subst hv
      by_cases hvs : vs = []
      · simp [layeredValue, combined, isNull, hvs]
      · simp [layeredValue, combined, isNull, hvs, contribution, bare]
    · have hn : isNull v = false := by cases v <;> simp_all [isNull]
      have hc : combined true (if vs = [] then none else some (layeredValue true vs)) v =
          .list (vs.flatMap contribution ++ contribution v) := by
        rw [← hheld]
        cases v <;> first | contradiction | rfl
      rw [hc]
      simp [layeredValue, hn]

theorem valuesUnder_concat_self (name : String) (ps : List (String × Value)) (v : Value) :
    valuesUnder name (ps ++ [(name, v)]) = valuesUnder name ps ++ [v] := by
  simp [valuesUnder]

theorem valuesUnder_concat_of_ne {name other : String} (h : other ≠ name) (ps : List (String × Value))
    (v : Value) : valuesUnder name (ps ++ [(other, v)]) = valuesUnder name ps := by
  simp [valuesUnder, h]

theorem valuesUnder_eq_nil_iff (name : String) (ps : List (String × Value)) :
    valuesUnder name ps = [] ↔ name ∉ (ps.map (·.1)).eraseDups := by
  simp only [valuesUnder, List.map_eq_nil_iff, List.filter_eq_nil_iff, beq_iff_eq, List.mem_eraseDups,
    List.mem_map, not_exists, not_and]

theorem eraseDups_concat (names : List String) (name : String) :
    (names ++ [name]).eraseDups =
      if name ∈ names.eraseDups then names.eraseDups else names.eraseDups ++ [name] := by
  rw [List.eraseDups_append]
  by_cases h : name ∈ names <;> simp [h, List.removeAll, List.eraseDups_cons]

theorem nodup_eraseDups (names : List String) : names.eraseDups.Nodup := by
  induction names using List.reverseRecOn with
  | nil => exact List.nodup_nil
  | append_singleton names name ih =>
    rw [eraseDups_concat]
    split
    · exact ih
    · next h =>
      refine List.nodup_append.mpr ⟨ih, by simp, fun n hn m hm e => h ?_⟩
      rwa [← List.mem_singleton.mp hm, ← e]

/-- One more named entry is put into what the ones before it make. -/
theorem layeredEntries_concat (r : Registry) (ps : List (String × Value)) (name : String) (v : Value) :
    layeredEntries r (ps ++ [(name, v)]) = Entries.put (.str name)
      (combined (r.isAccumulator (.str name)) (Entries.get? (layeredEntries r ps) (.str name)) v)
      (layeredEntries r ps) := by
  have hvalue : combined (r.isAccumulator (.str name)) (Entries.get? (layeredEntries r ps) (.str name)) v =
      layeredValue (r.isAccumulator (.str name)) (valuesUnder name (ps ++ [(name, v)])) := by
    rw [valuesUnder_concat_self, layeredValue_concat, layeredEntries, Entries.get?_ofNames]
    congr 1
    simp only [valuesUnder_eq_nil_iff]
    split <;> simp_all
  -- The new value changes what stands under its own name only.
  have hvalues : Function.update
      (fun n => layeredValue (r.isAccumulator (.str n)) (valuesUnder n ps)) name
      (layeredValue (r.isAccumulator (.str name)) (valuesUnder name (ps ++ [(name, v)]))) =
      fun n => layeredValue (r.isAccumulator (.str n)) (valuesUnder n (ps ++ [(name, v)])) := by
    funext n
    by_cases hn : n = name
    · subst hn
      rw [Function.update_self]
    · rw [Function.update_of_ne hn, valuesUnder_concat_of_ne (fun e => hn e.symm)]
  have hnames : (ps ++ [(name, v)]).map (·.1) = ps.map (·.1) ++ [name] := by simp
  rw [hvalue]
  unfold layeredEntries
  rw [hnames, eraseDups_concat]
  split
  · next hm => rw [Entries.put_ofNames_of_mem (nodup_eraseDups _) hm, hvalues]
  · next hm => rw [Entries.put_ofNames_of_not_mem hm, hvalues]

theorem namedEntries_of_mapping? {layer : Value} {es : Entries} (h : layer.mapping? = some es)
    (hs : ∀ e ∈ es, e.1.isString = true) :
    es = (namedEntries layer).map (fun p => (.str p.1, p.2)) := by
  rw [namedEntries, h, Option.getD_some]
  clear h
  induction es with
  | nil => rfl
  | cons e es ih =>
    obtain ⟨he, ht⟩ := List.forall_mem_cons.mp hs
    obtain ⟨name, hname⟩ := exists_str_of_isString he
    obtain ⟨k, v⟩ := e
    subst hname
    simpa using ih ht

theorem mergeEntries_named {r : Registry} (ps qs : List (String × Value)) :
    mergeEntries ⟨r, layeredEntries r ps, false⟩ (qs.map (fun p => (.str p.1, p.2))) =
      .ok ⟨r, layeredEntries r (ps ++ qs), false⟩ := by
  induction qs generalizing ps with
  | nil => simp [mergeEntries]
  | cons q qs ih =>
    obtain ⟨name, v⟩ := q
    have hput := layeredEntries_concat r ps name v
    have hrest := ih (ps ++ [(name, v)])
    rw [List.append_assoc, List.singleton_append, hput] at hrest
    rw [List.map_cons, mergeEntries, mergeEntry_str rfl]
    exact hrest

theorem ofEntries_layeredEntries (r : Registry) (ps : List (String × Value)) :
    ofEntries r (layeredEntries r ps) = .ok ⟨r, layeredEntries r ps, false⟩ :=
  ofEntries_ofNames r (nodup_eraseDups _) fun _ => thaw_layeredValue _ _

/-- One more layer on top of what the ones before it make. -/
theorem mergeLayer_named (r : Registry) (ps : List (String × Value)) {layer : Value} (h : IsLayer layer) :
    ((ConfigMap.mk r (layeredEntries r ps) false).mergeLayer layer).result =
      .ok ⟨r, layeredEntries r (ps ++ namedEntries layer), false⟩ := by
  rcases h with rfl | ⟨es, hm, hs⟩
  · simp [mergeLayer, namedEntries, mapping?]
  · have hbase : ofValue r (asLayer ⟨r, layeredEntries r ps, false⟩) =
        .ok ⟨r, layeredEntries r ps, false⟩ := ofEntries_layeredEntries r ps
    have hover : mergeEntries ⟨r, layeredEntries r ps, false⟩ es =
        .ok ⟨r, layeredEntries r (ps ++ namedEntries layer), false⟩ := by
      rw [namedEntries_of_mapping? hm hs]
      exact mergeEntries_named ps (namedEntries layer)
    have hne : layer ≠ .null := by
      intro he
      simp [he, mapping?] at hm
    have hmerge : (ConfigMap.mk r (layeredEntries r ps) false).mergeLayer layer =
        merge r (asLayer ⟨r, layeredEntries r ps, false⟩) layer := by
      unfold mergeLayer
      split
      · contradiction
      · rfl
    rw [hmerge, merge, hbase]
    simp [hm, hover, asLayer, mapping?]

theorem Logged.andThen_result {α β : Type} {x : Logged α} {a : α} (h : x.result = .ok a) (f : α → Logged β) :
    (x.andThen f).result = (f a).result := by
  simp [Logged.andThen, h]

theorem mergeOnto_named (r : Registry) (ps : List (String × Value)) {layers : List Value}
    (h : ∀ layer ∈ layers, IsLayer layer) :
    ((ConfigMap.mk r (layeredEntries r ps) false).mergeOnto layers).result =
      .ok ⟨r, layeredEntries r (ps ++ layers.flatMap namedEntries), false⟩ := by
  induction layers generalizing ps with
  | nil => simp [mergeOnto]
  | cons layer layers ih =>
    obtain ⟨hl, h⟩ := List.forall_mem_cons.mp h
    rw [mergeOnto, Logged.andThen_result (mergeLayer_named r ps hl), ih _ h, List.flatMap_cons,
      List.append_assoc]

theorem mergeLayers_result (r : Registry) {layers : List Value} (h : ∀ layer ∈ layers, IsLayer layer) :
    (mergeLayers r layers).result = .ok (layered r layers) := mergeOnto_named r [] h

end TopologyConfig.ConfigMap
