import TopologyConfig.Proofs.Json.AsJson
import TopologyConfig.Proofs.Session.Copies
import TopologyConfig.Proofs.Yaml.Values

/-!
Documents that are handed on in the other format. A YAML text can hold what JSON has no text for, and keys that JSON writes
as texts. A map that was read from YAML and sealed is written as JSON if its parts allow it, and then comes back with its
keys as texts; it comes back the same exactly if it is a document and has no float that is no number.
-/
namespace TopologyConfig

open Value

namespace ConfigMap

variable {c : ConfigMap}

theorem equals_eq_same (r : Registry) (es : Entries) (b : Bool) (v : Value) :
    (ConfigMap.mk r es b).equals v = (Value.map es).same v :=
  (same_of_mapping? rfl v).symm

/-- JSON has a text for a map if it has one for the parts of its plain form. -/
theorem exists_write_json_iff : (∃ text, c.write .json = .ok text) ↔ c.toValue.HasJson := by
  have hwrite : c.write .json = (Json.write c.toValue).mapError .notSerializable := rfl
  have hplain : c.toValue.thaw = c.toValue := by
    rw [toValue, plainEntries, thawEntries_eq_mapValues, ← thaw_map, thaw_thaw]
  rw [hwrite]
  constructor
  · rintro ⟨text, htext⟩
    obtain ⟨cs, hcs, -⟩ := map_eq_ok.mp (mapError_eq_ok.mp htext)
    exact hplain ▸ Json.hasJson_thaw hcs
  · intro h
    obtain ⟨cs, hcs, -⟩ := Json.exists_isText_asJson h
    exact ⟨String.ofList cs, mapError_eq_ok.mpr (map_eq_ok.mpr ⟨cs, hcs, rfl⟩)⟩

/-- What is written as JSON is read as the entries that come back for the plain ones. -/
theorem load_write_asJson {text : String} (h : c.write .json = .ok text) (r : Registry) (source : String) :
    ∃ es, c.toValue.asJson = .map es ∧ Document.load r .json source text = .ok ⟨r, es, false⟩ := by
  have hjson : c.toValue.HasJson := exists_write_json_iff.mp ⟨text, h⟩
  obtain ⟨cs, hcs, htext⟩ := Json.exists_isText_asJson hjson
  obtain ⟨ds, hds, rfl⟩ := map_eq_ok.mp (mapError_eq_ok.mp h)
  obtain rfl : cs = ds := Except.ok.inj (hcs.symm.trans hds)
  have hhead : cs.head? = some '\x7b' := Json.head?_membersIn hcs
  have hdocument := hjson.isDocument_asJson
  rw [toValue, asJson_map] at hdocument htext ⊢
  exact ⟨_, rfl, Document.load_of_readValue (Document.readValue_of_isText htext hhead source) hdocument r⟩

end ConfigMap

namespace Document

variable {r : Registry} {source text : String} {collect : Bool} {c d : ConfigMap} {es : Entries}

/-- The entries of a YAML text are taken over in their plain form. Floats that are no number are among those that texts
stand for. -/
theorem load_yaml_eq_ok (h : load r .yaml source text = .ok c) : ∃ es : Entries, read .yaml source text = .ok es ∧
    c = ⟨r, mapValues thaw es, false⟩ ∧ ∀ x ∈ (Value.map es).thaw.floats, Yaml.Spelled x := by
  obtain ⟨es, hread, hof⟩ := bind_eq_ok.mp h
  have hkeys : es.HasTextKeys := ConfigMap.ofEntries_eq_ok_iff.mp ⟨c, hof⟩
  obtain ⟨v, hv, hroot⟩ := bind_eq_ok.mp hread
  have hyaml : Yaml.read text = .ok v := by
    rw [readValue, readYaml] at hv
    split at hv
    · next w hw => rw [hw, Except.ok.inj hv]
    · cases hv
    · cases hv
  obtain ⟨hdistinct, hspelled⟩ := Yaml.read_eq_ok hyaml
  have hentries : es.Distinct ∧ ∀ x ∈ (Value.map es).thaw.floats, Yaml.Spelled x := by
    unfold rootEntries at hroot
    split at hroot
    · cases hroot
      exact ⟨List.Pairwise.nil, fun x hx => absurd hx List.not_mem_nil⟩
    · next fs =>
      split at hroot
      · cases hroot
        exact ⟨hdistinct _ rfl, hspelled⟩
      · split at hroot <;> cases hroot
    · cases hroot
  rw [ConfigMap.ofEntries_of_distinct r hkeys hentries.1] at hof
  exact ⟨es, hread, (Except.ok.inj hof).symm, hentries.2⟩

theorem ne_nan_one_of_spelled {x : Binary64} (h : Yaml.Spelled x) : x ≠ Binary64.nan 1 := by
  rintro rfl
  rcases h rfl with heq | heq
  · exact absurd heq (by decide)
  · exact absurd heq (by decide)

/-- The entries of a map with one map in it, and in this one a text under a number or a text. -/
def nested? : Entries → Option (String × (Int ⊕ String) × String)
  | [(.str name, .map [(.int n, .str s)])] => some (name, .inl n, s)
  | [(.str name, .map [(.str k, .str s)])] => some (name, .inr k, s)
  | _ => none

theorem eq_of_nested? {name s : String} {k : Int ⊕ String} (h : nested? es = some (name, k, s)) :
    es = [(.str name, .map [(k.elim .int .str, .str s)])] := by
  unfold nested? at h
  split at h
  · cases h
    rfl
  · cases h
    rfl
  · cases h

/-- The map under the key `a` of a text, sealed over the standard registry. -/
theorem load_nested {text : String} {k : Int ⊕ String}
    (h : (read .yaml unnamed text).toOption.bind nested? = some ("a", k, "x")) :
    let c : ConfigMap := ⟨Registry.standard, [(.str "a", .map [(k.elim .int .str, .str "x")])], false⟩
    load Registry.standard .yaml unnamed text = .ok c ∧ (c.toSealed true).result = .ok c.frozen ∧
      c.frozen.toValue = .map [(.str "a", .map [(k.elim .int .str, .str "x")])] := by
  obtain ⟨es, hes, hnested⟩ := Option.bind_eq_some_iff.mp h
  obtain rfl := eq_of_nested? hnested
  have hkeys : Entries.HasTextKeys [(.str "a", .map [(k.elim .int .str, .str "x")])] := List.forall_mem_singleton.mpr rfl
  have hdistinct : Entries.Distinct [(.str "a", .map [(k.elim .int .str, .str "x")])] := List.pairwise_singleton _ _
  have hmade := ConfigMap.ofEntries_of_distinct Registry.standard hkeys hdistinct
  exact ⟨bind_eq_ok.mpr ⟨_, toOption_eq_some.mp hes, hmade⟩, rfl, rfl⟩

/-- A sealed map from YAML is, as a plain value, what its text holds. It has a JSON text exactly if its parts and keys have
one; the text is then read as what JSON makes of the map, and this is equal to the map exactly if the map is a document all
of whose floats are numbers. -/
theorem sealed_yaml_equal_as_json_iff (hload : load r .yaml source text = .ok c)
    (hseal : (c.toSealed collect).result = .ok d) (source' : String) :
    (∃ es, read .yaml source text = .ok es ∧ d.toValue = (Value.map es).thaw) ∧
    ((∃ json, d.write .json = .ok json) ↔ d.toValue.HasJson) ∧
    (∀ json, d.write .json = .ok json → ∃ e, load r .json source' json = .ok e ∧ e.isSealed = false ∧
      e.toValue = d.toValue.asJson) ∧
    ((∃ json e, d.write .json = .ok json ∧ load r .json source' json = .ok e ∧ e.equals d.toValue = true) ↔
      d.toValue.IsDocument ∧ ∀ x ∈ d.toValue.floats, x.isNaN = false) := by
  obtain ⟨es, hread, rfl, hspelled⟩ := load_yaml_eq_ok hload
  have hvalue : d.toValue = (Value.map es).thaw := by
    rw [(ConfigMap.toSealed_eq_ok rfl hseal).2, (ConfigMap.resembles_frozen _).plain, ConfigMap.toValue,
      ConfigMap.plainEntries, thawEntries_eq_mapValues, ← thaw_map, ← thaw_map, thaw_thaw]
  rw [← hvalue] at hspelled
  have hnan : (∀ x ∈ d.toValue.floats, x.isNaN = true → x = Binary64.nan 1) ↔ ∀ x ∈ d.toValue.floats, x.isNaN = false :=
    forall₂_congr fun x hx => by simp [ne_nan_one_of_spelled (hspelled x hx)]
  refine ⟨⟨es, hread, hvalue⟩, ConfigMap.exists_write_json_iff, fun json hjson => ?_, ?_⟩
  · obtain ⟨fs, hfs, hback⟩ := ConfigMap.load_write_asJson hjson r source'
    have hdocument := (ConfigMap.exists_write_json_iff.mp ⟨json, hjson⟩).isDocument_asJson
    refine ⟨_, hback, rfl, ?_⟩
    rw [hfs] at hdocument ⊢
    rw [ConfigMap.toValue, ConfigMap.plainEntries, thawEntries_eq_mapValues, ← thaw_map]
    exact hdocument.thaw_eq
  · constructor
    · rintro ⟨json, e, hjson, hback, hequal⟩
      obtain ⟨fs, hfs, hback'⟩ := ConfigMap.load_write_asJson hjson r source'
      obtain rfl : e = ⟨r, fs, false⟩ := Except.ok.inj (hback.symm.trans hback')
      rw [ConfigMap.equals_eq_same, ← hfs] at hequal
      rw [← hnan]
      exact (ConfigMap.exists_write_json_iff.mp ⟨json, hjson⟩).same_asJson_iff.mp hequal
    · intro h
      have hhas : d.toValue.HasJson := h.1.hasJson
      obtain ⟨json, hjson⟩ := ConfigMap.exists_write_json_iff.mpr hhas
      obtain ⟨fs, hfs, hback⟩ := ConfigMap.load_write_asJson hjson r source'
      refine ⟨json, _, hjson, hback, ?_⟩
      rw [ConfigMap.equals_eq_same, ← hfs, hhas.same_asJson_iff, hnan]
      exact h

/-- A digit between quotes is a text, and is handed on. -/
theorem quoted_digit_is_handed_on : ∃ c d, load Registry.standard .yaml unnamed "a:\n  '1': x\n" = .ok c ∧
    (c.toSealed true).result = .ok d ∧ ∃ json e, d.write .json = .ok json ∧
      load Registry.standard .json unnamed json = .ok e ∧ e.equals d.toValue = true := by
  have hread : (read .yaml unnamed "a:\n  '1': x\n").toOption.bind nested? = some ("a", .inr "1", "x") := by
    decide +kernel
  obtain ⟨hload, hseal, hvalue⟩ := load_nested hread
  obtain ⟨-, -, -, hiff⟩ := sealed_yaml_equal_as_json_iff hload hseal unnamed
  have hinner : (Value.map [(.str "1", .str "x")]).IsDocument :=
    .map _ (by simp [Entries.HasTextKeys, isString]) (by simp [Entries.Distinct]) (by simpa using .str "x")
  have hdocument : (Value.map [(.str "a", .map [(.str "1", .str "x")])]).IsDocument :=
    .map _ (by simp [Entries.HasTextKeys, isString]) (by simp [Entries.Distinct]) (by simpa using hinner)
  refine ⟨_, _, hload, hseal, hiff.mpr ?_⟩
  rw [hvalue]
  exact ⟨hdocument, fun x hx => absurd hx List.not_mem_nil⟩

/-- The same digit without quotes is a number, and comes back as a text. -/
theorem number_key_comes_back_as_text : ∃ c d, load Registry.standard .yaml unnamed "a:\n  1: x\n" = .ok c ∧
    (c.toSealed true).result = .ok d ∧ ∃ json e, d.write .json = .ok json ∧
      load Registry.standard .json unnamed json = .ok e ∧
      e.toValue = .map [(.str "a", .map [(.str "1", .str "x")])] ∧ e.equals d.toValue = false := by
  have hread : (read .yaml unnamed "a:\n  1: x\n").toOption.bind nested? = some ("a", .inl 1, "x") := by
    decide +kernel
  obtain ⟨hload, hseal, hvalue⟩ := load_nested hread
  have hinner : (Value.map [(.int 1, .str "x")]).HasJson :=
    .map _ (by simpa [isJsonKey] using (by decide +kernel : Numeral.isWritable 1 = true)) (by simpa using .str "x")
  have hhas : (Value.map [(.str "a", .map [(.int 1, .str "x")])]).HasJson :=
    .map _ (by simp [isJsonKey]) (by simpa using hinner)
  have hback : (Value.map [(.str "a", .map [(.int 1, .str "x")])]).asJson =
      .map [(.str "a", .map [(.str "1", .str "x")])] := rfl
  obtain ⟨json, hjson⟩ := ConfigMap.exists_write_json_iff.mpr (hvalue ▸ hhas)
  obtain ⟨fs, hfs, hread'⟩ := ConfigMap.load_write_asJson hjson Registry.standard unnamed
  rw [hvalue] at hfs
  obtain rfl := Value.map.inj (hback.symm.trans hfs)
  refine ⟨_, _, hload, hseal, json, _, hjson, hread', rfl, ?_⟩
  rw [ConfigMap.equals_eq_same, hvalue, Bool.eq_false_iff, ← hback]
  intro hsame
  have hself := hhas.asJson_eq_of_same hsame
  simp [hback] at hself

end Document
end TopologyConfig
