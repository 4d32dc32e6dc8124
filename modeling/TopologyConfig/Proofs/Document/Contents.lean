import TopologyConfig.Proofs.Document.Written
import TopologyConfig.Proofs.Session.Copies
import TopologyConfig.Proofs.Value.Arranged

/-!
Documents of the maps that are made from a mapping. Making a map, copying it in either way and closing it keep the
contents, however often they are done, up to the order in which sets are listed: each copy of a set may be listed in
another one. In plain form the map is what the mapping is up to that order, so both have the same JSON text, and the same
YAML text if no set has two elements.
-/
namespace TopologyConfig

open Value

namespace ConfigMap

variable {c d : ConfigMap} {r : Registry} {m : Value} {es : Entries} {collect : Bool}

/-- The maps differ at most in the order in which their sets are listed. -/
structure Rearranged (c d : ConfigMap) : Prop where
  registry : d.registry = c.registry
  isSealed : d.isSealed = c.isSealed
  entries : c.entries.Pointwise Arranged d.entries

/-- A map that comes from a mapping by making, copying and closing maps. At any time their sets may come to be listed in
another order. -/
inductive MadeFrom (m : Value) : ConfigMap → Prop where
  | made (r : Registry) (c : ConfigMap) (h : ofValue r m = .ok c) : MadeFrom m c
  | remade (r : Registry) (c d : ConfigMap) (hc : MadeFrom m c) (h : ofValue r c.asLayer = .ok d) : MadeFrom m d
  | copied (c d : ConfigMap) (hc : MadeFrom m c) (h : c.copy = .ok d) : MadeFrom m d
  | deepCopied (c d : ConfigMap) (hc : MadeFrom m c) (h : c.deepCopy.result = .ok d) : MadeFrom m d
  | closed (collect : Bool) (c d : ConfigMap) (hc : MadeFrom m c) (h : (c.toSealed collect).result = .ok d) :
      MadeFrom m d
  | rearranged (c d : ConfigMap) (hc : MadeFrom m c) (h : c.Rearranged d) : MadeFrom m d

/-- The map holds the entries in some form, and a closed one holds only what it allows. -/
structure HoldsContents (es : Entries) (c : ConfigMap) : Prop where
  textKeys : c.entries.HasTextKeys
  distinct : c.entries.Distinct
  plain : Arranged (Value.map es).thaw c.toValue
  firm : c.Firm

theorem HoldsContents.trans (h : c.HoldsContents es) (h' : d.HoldsContents c.entries) : d.HoldsContents es where
  textKeys := h'.textKeys
  distinct := h'.distinct
  plain := h.plain.trans h'.plain
  firm := h'.firm

theorem holdsContents_plain (r : Registry) (hk : es.HasTextKeys) (hd : es.Distinct) :
    HoldsContents es ⟨r, mapValues thaw es, false⟩ where
  textKeys := Entries.hasTextKeys_mapValues_iff.mpr hk
  distinct := Entries.distinct_mapValues hd
  plain := by
    have hplain : toValue ⟨r, mapValues thaw es, false⟩ = (Value.map es).thaw := by
      simp [toValue, plainEntries, thawEntries_eq_mapValues, mapValues_mapValues, thaw_thaw]
    exact hplain ▸ .refl _
  firm := firm_of_open rfl

theorem holdsContents_frozen (hk : c.entries.HasTextKeys) (hd : c.entries.Distinct)
    (h : ∀ e ∈ c.entries, c.registry.allows e.1 e.2 = true) : c.frozen.HoldsContents c.entries where
  textKeys := by
    rw [frozen, freezeEntries_eq_mapValues]
    exact Entries.hasTextKeys_mapValues_iff.mpr hk
  distinct := by
    rw [frozen, freezeEntries_eq_mapValues]
    exact Entries.distinct_mapValues hd
  plain := by
    have hplain : c.frozen.toValue = (Value.map c.entries).thaw := (resembles_frozen c).plain
    exact hplain ▸ .refl _
  firm _ e he := by
    rw [frozen, freezeEntries_eq_mapValues] at he
    obtain ⟨e', he', rfl⟩ := mem_mapValues.mp he
    exact Registry.allowsFrozen_freeze (h e' he')

/-- Whatever order the sets are listed in, the contents are the same. -/
theorem HoldsContents.rearranged (h : c.HoldsContents es) (hd : c.Rearranged d) : d.HoldsContents es where
  textKeys := fun e he => by
    obtain ⟨e', he', hkey, -⟩ := hd.entries.of_mem he
    exact hkey ▸ h.textKeys e' he'
  distinct := hd.entries.distinct h.distinct
  plain := h.plain.trans (arranged_map_iff.mpr hd.entries).thaw
  firm := fun hs e he => by
    obtain ⟨e', he', hkey, hvalue⟩ := hd.entries.of_mem he
    have hold := h.firm (hd.isSealed ▸ hs) e' he'
    rw [hd.registry, ← hkey]
    exact Registry.allowsFrozen_of_keepsFrozen keepsFrozen_arranged hvalue hold

theorem HoldsContents.toSealed (h : c.HoldsContents es) (hd : (c.toSealed collect).result = .ok d) :
    d.HoldsContents es := by
  cases ho : c.isSealed with
  | true =>
    obtain rfl : c = d := by simpa [ConfigMap.toSealed, ho] using hd
    exact h
  | false =>
    obtain ⟨hinspect, rfl⟩ := toSealed_eq_ok ho hd
    exact h.trans (holdsContents_frozen h.textKeys h.distinct (Registry.inspect_eq_nil_iff.mp hinspect))

/-- A deep copy exists: one of a closed map can be closed again. -/
theorem HoldsContents.deepCopy (h : c.HoldsContents es) : ∃ d, c.deepCopy.result = .ok d ∧ d.HoldsContents es := by
  have hplain : c.plainCopy.HoldsContents es := by
    rw [plainCopy, plainEntries, thawEntries_eq_mapValues]
    exact h.trans (holdsContents_plain c.registry h.textKeys h.distinct)
  rw [ConfigMap.deepCopy, rebuild_result h.textKeys h.distinct]
  cases hs : c.isSealed with
  | false => exact ⟨c.plainCopy, rfl, hplain⟩
  | true =>
    have hallowed : ∀ e ∈ c.entries, c.registry.allows e.1 e.2 = true := fun e he =>
      Registry.allows_of_allowsFrozen (h.firm hs e he)
    have hsealed := toSealed_plainCopy hallowed true
    exact ⟨c.plainCopy.frozen, hsealed, hplain.toSealed hsealed⟩

theorem exists_ofValue (r : Registry) (hm : m.mapping? = some es) (hk : es.HasTextKeys) (hd : es.Distinct) :
    ∃ c, ofValue r m = .ok c ∧ c.HoldsContents es :=
  ⟨_, (ofValue_of_mapping? hm).trans (ofEntries_of_distinct r hk hd), holdsContents_plain r hk hd⟩

theorem HoldsContents.remade (h : c.HoldsContents es) (r : Registry) :
    ∃ d, ofValue r c.asLayer = .ok d ∧ d.HoldsContents es := by
  obtain ⟨d, hd, hholds⟩ := exists_ofValue r (m := c.asLayer) rfl h.textKeys h.distinct
  exact ⟨d, hd, h.trans hholds⟩

theorem HoldsContents.copy (h : c.HoldsContents es) : ∃ d, c.copy = .ok d ∧ d.HoldsContents es :=
  h.remade c.registry

/-- Every map that comes from the mapping holds its contents. -/
theorem MadeFrom.holdsContents (hm : m.mapping? = some es) (hk : es.HasTextKeys) (hd : es.Distinct)
    (h : MadeFrom m c) : c.HoldsContents es := by
  have hresult {x : Except ConfigError ConfigMap} {c : ConfigMap} (hx : ∃ d, x = .ok d ∧ d.HoldsContents es)
      (h : x = .ok c) : c.HoldsContents es := by
    obtain ⟨d, hd, hholds⟩ := hx
    cases hd.symm.trans h
    exact hholds
  induction h with
  | made r c h => exact hresult (exists_ofValue r hm hk hd) h
  | remade r c d _ h ih => exact hresult (ih.remade r) h
  | copied c d _ h ih => exact hresult ih.copy h
  | deepCopied c d _ h ih => exact hresult ih.deepCopy h
  | closed collect c d _ h ih => exact ih.toSealed h
  | rearranged c d _ h ih => exact ih.rearranged h

/-- The JSON text of the map is that of the mapping, whatever order the sets of either are listed in. -/
theorem HoldsContents.write_json (h : c.HoldsContents es) {m' : Value} {fs : Entries} (hm : m'.mapping? = some fs)
    (hfs : es.Pointwise Arranged fs) (hd : fs.Distinct) : c.write .json = Document.write .json m' := by
  have hmap : Json.valueText c.toValue = Json.valueText (Value.map es).thaw := (Json.valueText_of_arranged h.plain).symm
  have hmapping : Json.valueText (Value.map es).thaw = Json.valueText (Value.map fs).thaw :=
    Json.valueText_of_arranged (arranged_map_iff.mpr hfs).thaw
  rw [Document.write_of_mapping? hm hd, ConfigMap.write, Document.writeValue, Document.writeValue, Json.write, Json.write,
    hmap, hmapping]

/-- So is the YAML text if no set has two elements, since there is but one order then. -/
theorem HoldsContents.write_yaml (h : c.HoldsContents es) {m' : Value} {fs : Entries} (hm : m'.mapping? = some fs)
    (hfs : es.Pointwise Arranged fs) (hd : fs.Distinct) (hsmall : ∀ e ∈ es, e.2.HasSmallSets) :
    c.write .yaml = Document.write .yaml m' := by
  have hsame : fs = es := hfs.eq_of_forall fun e he _ hw => hw.eq_of_hasSmallSets (hsmall e he)
  have hplain : c.toValue = (Value.map es).thaw := h.plain.eq_of_hasSmallSets (HasSmallSets.map es hsmall).thaw
  rw [Document.write_of_mapping? hm hd, ConfigMap.write, hplain, hsame]

/-- A mapping under texts can be made into a map, and what comes from it can always be made into a map again and copied
in both ways. All these maps, open or closed, have the JSON text of the mapping, or fail with its error, and so it is
with YAML if no set in the mapping has two elements. Larger sets may be written in another order: the text is always one
of the plain form of the mapping with its sets in some order. -/
theorem text_depends_on_contents (hm : m.mapping? = some es) (hk : es.HasTextKeys) (hd : es.Distinct) :
    (∀ r, ∃ c, ofValue r m = .ok c) ∧
    ∀ c, MadeFrom m c →
      (∀ m', Arranged m m' → c.write .json = Document.write .json m' ∧
        ((∀ e ∈ es, e.2.HasSmallSets) → c.write .yaml = Document.write .yaml m')) ∧
      (∃ w, Arranged (Value.map es).thaw w ∧ ∀ format, c.write format = Document.writeValue format w) ∧
      (∀ format, Document.write format c.asLayer = c.write format) ∧
      (∀ r, ∃ d, ofValue r c.asLayer = .ok d) ∧ (∃ d, c.copy = .ok d) ∧ ∃ d, c.deepCopy.result = .ok d := by
  refine ⟨fun r => (exists_ofValue r hm hk hd).imp fun _ => And.left, fun c hc => ?_⟩
  have hholds := hc.holdsContents hm hk hd
  refine ⟨fun m' hm' => ?_, ⟨c.toValue, hholds.plain, fun _ => rfl⟩, Document.write_asLayer hholds.distinct,
    fun r => (hholds.remade r).imp fun _ => And.left, hholds.copy.imp fun _ => And.left,
    hholds.deepCopy.imp fun _ => And.left⟩
  obtain ⟨fs, hfs, hsame⟩ := hm'.exists_mapping? hm
  have hdistinct : fs.Distinct := hsame.distinct hd
  exact ⟨hholds.write_json hfs hsame hdistinct, hholds.write_yaml hfs hsame hdistinct⟩

/-- Entries with a tuple, a frozen map, a view, a closed configuration and a set inside each other. -/
def nestedEntries : Entries :=
  [(.str "topology.debug", .bool true),
    (.str "a", .tuple
      [.frozenMap [(.str "b", .view [(.str "c", .config none true [(.str "d", .frozenList [.set [.int 1]])])])]])]

/-- They are allowed, so a map of them can be closed; a copy of the closed map has the text of the view. -/
theorem copy_of_closed_has_text_of_view :
    ∃ c d e, ofValue Registry.standard (.view nestedEntries) = .ok c ∧ (c.toSealed true).result = .ok d ∧
      d.deepCopy.result = .ok e ∧ ∀ format, e.write format = Document.write format (.view nestedEntries) := by
  have hkeys : nestedEntries.HasTextKeys := by simp [Entries.HasTextKeys, nestedEntries, isString]
  have hdistinct : nestedEntries.Distinct := by simp [Entries.Distinct, nestedEntries, same_str_str]
  have hsmall : ∀ e ∈ nestedEntries, e.2.HasSmallSets := by
    have hlist : HasSmallSets (.frozenList [.set [.int 1]]) := .frozenList _ (by simpa using .set _ (by simp))
    have hview : HasSmallSets (.view [(.str "c", .config none true [(.str "d", .frozenList [.set [.int 1]])])]) :=
      .view _ (by simpa using .config _ _ _ (by simpa using hlist))
    have htuple := HasSmallSets.tuple [.frozenMap [(.str "b", _)]] (by simpa using .frozenMap _ (by simpa using hview))
    simpa [nestedEntries] using ⟨.leaf _ rfl, htuple⟩
  obtain ⟨-, hmaps⟩ := text_depends_on_contents (m := .view nestedEntries) rfl hkeys hdistinct
  let c : ConfigMap := ⟨Registry.standard, mapValues thaw nestedEntries, false⟩
  have hc : ofValue Registry.standard (.view nestedEntries) = .ok c := ofEntries_of_distinct _ hkeys hdistinct
  have hd : (c.toSealed true).result = .ok c.frozen := toSealed_of_inspect rfl rfl true
  have hclosed : MadeFrom (.view nestedEntries) c.frozen := .closed true c _ (.made _ c hc) hd
  obtain ⟨-, -, -, -, -, e, he⟩ := hmaps c.frozen hclosed
  obtain ⟨htext, -⟩ := hmaps e (.deepCopied _ e hclosed he)
  obtain ⟨hjson, hyaml⟩ := htext _ (.refl _)
  refine ⟨c, c.frozen, e, hc, hd, he, fun format => ?_⟩
  cases format with
  | json => exact hjson
  | yaml => exact hyaml hsmall

/-- The first free slot of eight that a number is offered; the slot after the i-th one depends on i and on what the
number is beyond its last binary digits. -/
def freeSlot (slots : List (Option Nat)) : Nat → Nat → Nat → Nat
  | 0, _, i => i
  | fuel + 1, n, i =>
    match slots.getD i none with
    | none => i
    | some _ => freeSlot slots fuel (n / 32) ((5 * i + 1 + n / 32) % 8)

/-- The order in which a set lists up to four small numbers that were added to it one after the other: they lie in eight
slots, and a number is offered the slot of its last three binary digits first. -/
def slotOrder (ns : List Nat) : List Nat :=
  let slots := ns.foldl (fun slots n => slots.set (freeSlot slots 8 n (n % 8)) (some n)) (List.replicate 8 none)
  slots.filterMap id

/-- A copy of a set lists two numbers in the other order if both are offered the same slot, and so does a copy of it. -/
example : slotOrder [15, 7] = [7, 15] ∧ slotOrder [7, 15] = [15, 7] := by decide

/-- The sets of a map that is made from a mapping may be listed as their copies list them, and are written so. -/
theorem copied_set_is_written_in_another_order :
    ∃ c, MadeFrom (.map [(.str "a", .set [.int 15, .int 7])]) c ∧
      c.entries = [(.str "a", .set ((slotOrder [15, 7]).map fun n => .int n))] ∧
      Document.write .yaml (.map [(.str "a", .set [.int 15, .int 7])]) = .ok "a: !!set\n  15: null\n  7: null\n" ∧
      c.write .yaml = .ok "a: !!set\n  7: null\n  15: null\n" := by
  have hperm : [Value.int 15, .int 7].Perm [.int 7, .int 15] := .swap _ _ _
  refine ⟨⟨Registry.standard, [(.str "a", .set [.int 7, .int 15])], false⟩, ?_, rfl, ?_, ?_⟩
  · refine .rearranged ⟨Registry.standard, [(.str "a", .set [.int 15, .int 7])], false⟩ _ (.made _ _ rfl) ⟨rfl, rfl, ?_⟩
    exact .cons ⟨rfl, .set _ _ hperm⟩ .nil
  · exact toOption_eq_some.mp (by decide +kernel)
  · exact toOption_eq_some.mp (by decide +kernel)

end ConfigMap
end TopologyConfig
