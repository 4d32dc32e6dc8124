import TopologyConfig.Proofs.Json.RoundTrip
import TopologyConfig.Proofs.Yaml.Composition
import TopologyConfig.Proofs.Yaml.Draft
import TopologyConfig.Proofs.Yaml.Kept
import TopologyConfig.Proofs.Yaml.Nodes
import TopologyConfig.Proofs.Yaml.NumberText
import TopologyConfig.Proofs.Yaml.Printable

/-!
YAML gives back what was written if its texts are kept. A document becomes a node whose scalars stand without tags; the text
of the node is read as its tokens, the tokens make the node as it is read back, and that node is drafted into the document as
it is read back.
-/
namespace TopologyConfig

open Value

namespace Yaml

/-- The node stands for the value: read under its own tag it has no fault. -/
structure Drafts (x : Node) (v : Value) : Prop where
  faults : (Draft.ofNode x.tag x).faults = []
  value : (Draft.ofNode x.tag x).value = v

theorem IsScalarOf.drafts {t : Tag} {text : String} {v : Value} (h : IsScalarOf t text v) :
    Draft.ofNode t (.scalar t text) = .ready v := by
  have hreads := h.reads
  rw [Draft.ofNode]
  cases t <;> simp_all [Draft.ofScalar, Draft.ofResult, Tag.valueOf]

theorem drafts_sequence {xs : List Node} {vs : List Value} (h : List.Forall₂ Drafts xs vs) :
    Drafts (.sequence .seq xs) (.list vs) := by
  have hitems : Draft.faultsOf (Draft.ofItems xs) = [] ∧ Draft.values (Draft.ofItems xs) = vs := by
    induction h with
    | nil => exact ⟨rfl, rfl⟩
    | cons hx _ ih =>
      rw [Draft.ofItems, Draft.faultsOf, Draft.values, hx.faults, hx.value, ih.1, ih.2]
      exact ⟨rfl, rfl⟩
  have hdraft : Draft.ofNode .seq (.sequence .seq xs) = .list (Draft.ofItems xs) := by rw [Draft.ofNode]
  exact ⟨by rw [Node.tag, hdraft, Draft.faults, hitems.1], by rw [Node.tag, hdraft, Draft.value, hitems.2]⟩

/-- The keys are texts, and the values stand for the ones of the pairs. -/
theorem drafts_mapping {ns : List (Node × Node)} {es : Entries}
    (h : List.Forall₂ (fun n e => ∃ s, n.1 = .scalar .str s ∧ e.1 = .str s ∧ Drafts n.2 e.2) ns es) :
    Drafts (.mapping .map ns) (.map (Entries.ofPairs es)) := by
  have hentries : ∃ ds, Draft.flatten ns = .ok ⟨[], ds⟩ ∧ Draft.entryFaults ds = [] ∧ Draft.entryValues ds = es := by
    induction h with
    | nil => exact ⟨[], by rw [Draft.flatten], rfl, rfl⟩
    | @cons n e ns es hn _ ih =>
      obtain ⟨k, x⟩ := n
      obtain ⟨k', v⟩ := e
      obtain ⟨s, hkey, hkey', hx⟩ := hn
      dsimp only at hkey hkey' hx
      subst hkey hkey'
      obtain ⟨ds, hflat, hfaults, hvalues⟩ := ih
      have hdraft : Draft.ofNode .str (.scalar .str s) = .ready (.str s) := (isScalarOf_str s).drafts
      refine ⟨(.ready (.str s), Draft.ofNode x.tag x) :: ds, ?_, ?_, ?_⟩
      · rw [Draft.flatten, if_neg (by simp [Node.tag]), hflat]
        rfl
      · rw [Draft.entryFaults, Draft.keyFaults, hx.faults, hfaults]
        rfl
      · rw [Draft.entryValues, Draft.value, hx.value, hvalues]
  obtain ⟨ds, hflat, hfaults, hvalues⟩ := hentries
  have hdraft : Draft.ofNode .map (.mapping .map ns) = .map ds := by rw [Draft.ofNode, hflat]; rfl
  exact ⟨by rw [Node.tag, hdraft, Draft.faults, hfaults], by rw [Node.tag, hdraft, Draft.value, hvalues]⟩

-- Unfolding what writes a number would raise ten to its greatest length.
attribute [local irreducible] Numeral.write in
theorem ofValue_int (n : Int) : Node.ofValue (.int n) =
    match Numeral.write n with
    | .ok text => .ok (.scalar .int text)
    | .error e => .error (.numeral e) := rfl

theorem ofValue_list (vs : List Value) : Node.ofValue (.list vs) = (Node.ofValues vs).map (.sequence .seq) := rfl

theorem ofValue_map (es : Entries) : Node.ofValue (.map es) = (Node.ofEntries es).map (.mapping .map) := rfl

/-- The node of the value is written without tags, and as it is read back it stands for the value as it is read back. -/
structure Represents (x : Node) (v : Value) : Prop where
  node : Node.ofValue v = .ok x
  bare : x.IsBare
  fits : x.keysFit = v.keysFit
  drafts : ∀ keyed m, Drafts (x.readBack false keyed m) ((v.withNaN ScalarValue.notANumber).readBack keyed m)

/-- The key is a text, and the node represents the value. -/
def RepresentsEntry (n : Node × Node) (e : Value × Value) : Prop :=
  ∃ s, n.1 = .scalar .str s ∧ e.1 = .str s ∧ Represents n.2 e.2

theorem represents_str (s : String) : Represents (.scalar .str s) (.str s) := by
  refine ⟨rfl, .scalar _ _ (.inl rfl), rfl, fun keyed m => ?_⟩
  have hdrafts := (isScalarOf_str (Node.readText false (m + 2) .str s)).drafts
  exact ⟨by rw [Node.readBack, Node.tag, hdrafts]; rfl, by rw [Node.readBack, Node.tag, hdrafts]; rfl⟩

/-- A scalar that is no text is read back as it is. -/
theorem IsScalarOf.represents {t : Tag} {text : String} {v : Value} (hnode : Node.ofValue v = .ok (.scalar t text))
    (h : IsScalarOf t text (v.withNaN ScalarValue.notANumber)) (ht : t ≠ .str) (hfit : v.keysFit = true)
    (hback : ∀ keyed m, (v.withNaN ScalarValue.notANumber).readBack keyed m = v.withNaN ScalarValue.notANumber) :
    Represents (.scalar t text) v := by
  refine ⟨hnode, .scalar _ _ h.untagged, hfit.symm, fun keyed m => ?_⟩
  have htext : Node.readText false (m + 2) t text = text := by
    rw [Node.readText, (h.untagged.resolve_left ht).1]
  rw [Node.readBack, htext, hback]
  exact ⟨by rw [Node.tag, h.drafts]; rfl, by rw [Node.tag, h.drafts]; rfl⟩

section

variable {xs : List Node} {vs : List Value} {ns : List (Node × Node)} {es : Entries}

theorem exists_ofValues (h : ∀ v ∈ vs, ∃ x, Represents x v) :
    ∃ xs, Node.ofValues vs = .ok xs ∧ List.Forall₂ Represents xs vs := by
  induction vs with
  | nil => exact ⟨[], rfl, .nil⟩
  | cons v vs ih =>
    obtain ⟨⟨x, hx⟩, hvs⟩ := List.forall_mem_cons.mp h
    obtain ⟨xs, hxs, hall⟩ := ih hvs
    exact ⟨x :: xs, by simp only [Node.ofValues, hx.node, hxs, bind, Except.bind, pure, Except.pure], .cons hx hall⟩

theorem exists_ofEntries (hkeys : es.HasTextKeys) (h : ∀ e ∈ es, ∃ x, Represents x e.2) :
    ∃ ns, Node.ofEntries es = .ok ns ∧ List.Forall₂ RepresentsEntry ns es := by
  induction es with
  | nil => exact ⟨[], rfl, .nil⟩
  | cons e es ih =>
    obtain ⟨k, v⟩ := e
    obtain ⟨hkey, hkeys'⟩ := List.forall_mem_cons.mp hkeys
    obtain ⟨⟨x, hx⟩, hes⟩ := List.forall_mem_cons.mp h
    obtain ⟨s, rfl⟩ : ∃ s, k = .str s := by cases k <;> simp [isString] at hkey ⊢
    obtain ⟨ns, hns, hall⟩ := ih hkeys' hes
    have hnode : Node.ofValue (.str s) = .ok (.scalar .str s) := rfl
    exact ⟨(.scalar .str s, x) :: ns,
      by simp only [Node.ofEntries, hnode, hx.node, hns, bind, Except.bind, pure, Except.pure],
      .cons ⟨s, rfl, rfl, hx⟩ hall⟩

theorem represents_sequence (hnode : Node.ofValues vs = .ok xs) (h : List.Forall₂ Represents xs vs) :
    Represents (.sequence .seq xs) (.list vs) := by
  refine ⟨by rw [ofValue_list, hnode, Except.map], ?_, ?_, fun keyed m => ?_⟩
  · refine .sequence _ fun x hx => ?_
    obtain ⟨v, -, hv⟩ := exists_of_forall₂ h.flip hx
    exact hv.bare
  · rw [Node.keysFit, Value.keysFit]
    clear hnode
    induction h with
    | nil => rfl
    | cons hx _ ih => rw [Node.itemsFit, Value.itemsFit, hx.fits, ih]
  · rw [Node.readBack, withNaN_list, Value.readBack]
    clear hnode
    refine drafts_sequence ?_
    induction h with
    | nil => exact .nil
    | cons hx _ ih => exact .cons (hx.drafts false _) ih

theorem Node.isBare_mapping_of_represents (h : List.Forall₂ RepresentsEntry ns es) : (Node.mapping .map ns).IsBare := by
  refine .mapping _ (fun n hn => ?_) fun n hn => ?_
  · obtain ⟨e, -, s, hs, -⟩ := exists_of_forall₂ h.flip hn
    exact ⟨s, hs⟩
  · obtain ⟨e, -, s, -, -, hx⟩ := exists_of_forall₂ h.flip hn
    exact hx.bare

theorem entriesFit_of_represents (h : List.Forall₂ RepresentsEntry ns es) : Node.entriesFit ns = Value.entriesFit es := by
  induction h with
  | nil => rfl
  | @cons n e ns es hn _ ih =>
    obtain ⟨k, x⟩ := n
    obtain ⟨k', v⟩ := e
    obtain ⟨s, hkey, hkey', hx⟩ := hn
    dsimp only at hkey hkey' hx
    rw [Node.entriesFit, Value.entriesFit, hkey, hkey', hx.fits, ih]
    rfl

/-- As they are read back, the entries make the map of what is read back, where keys may fall together. -/
theorem drafts_entriesReadBack (h : List.Forall₂ RepresentsEntry ns es) (n : Nat) :
    Drafts (.mapping .map (Node.entriesReadBack n ns))
      (.map (Entries.ofPairs (Value.entriesReadBack n (mapValues (withNaN ScalarValue.notANumber) es)))) := by
  refine drafts_mapping ?_
  induction h with
  | nil => exact .nil
  | @cons n e ns es hn _ ih =>
    obtain ⟨k, x⟩ := n
    obtain ⟨k', v⟩ := e
    obtain ⟨s, hkey, hkey', hx⟩ := hn
    dsimp only at hkey hkey' hx
    subst hkey hkey'
    exact .cons ⟨_, rfl, rfl, hx.drafts _ _⟩ ih

theorem represents_mapping (hnode : Node.ofEntries es = .ok ns) (h : List.Forall₂ RepresentsEntry ns es) :
    Represents (.mapping .map ns) (.map es) := by
  refine ⟨by rw [ofValue_map, hnode, Except.map], Node.isBare_mapping_of_represents h, entriesFit_of_represents h,
    fun keyed m => ?_⟩
  rw [withNaN_map]
  exact drafts_entriesReadBack h (m + 2)

end

theorem exists_represents {v : Value} (h : v.IsDocument) : ∃ x, Represents x v := by
  induction h with
  | null => exact ⟨_, isScalarOf_null.represents rfl (by simp) rfl fun _ _ => rfl⟩
  | bool b => exact ⟨_, (isScalarOf_bool b).represents rfl (by simp) rfl fun _ _ => rfl⟩
  | int n hn =>
    have hwrite : Numeral.write n = .ok (toString n) := if_pos hn
    have hnode : Node.ofValue (.int n) = .ok (.scalar .int (toString n)) := by rw [ofValue_int, hwrite]
    exact ⟨_, (isScalarOf_int hn).represents hnode (by simp) rfl fun _ _ => rfl⟩
  | float x =>
    refine ⟨_, (isScalarOf_float x).represents rfl (by simp) rfl fun _ _ => ?_⟩
    rw [withNaN]
    split <;> rfl
  | str s => exact ⟨_, represents_str s⟩
  | list vs _ ih =>
    obtain ⟨xs, hnode, hall⟩ := exists_ofValues ih
    exact ⟨_, represents_sequence hnode hall⟩
  | map es hkeys _ _ ih =>
    obtain ⟨ns, hnode, hall⟩ := exists_ofEntries hkeys ih
    exact ⟨_, represents_mapping hnode hall⟩

/-- A node without tags that is written as a document is read as it is drafted when read back. -/
theorem read_documentText {ns : List (Node × Node)} {v : Value} (hbare : (Node.mapping .map ns).IsBare)
    (hfits : Node.entriesFit ns = true) (hdrafts : Drafts (.mapping .map (Node.entriesReadBack 0 ns)) v) :
    read (String.ofList (Node.documentText ns)) = .ok v := by
  have hprintable : (Node.documentText ns).all isPrintable = true :=
    List.all_eq_true.mpr (Node.isPrintable_documentText hbare)
  have htokens := Node.ofText_documentText hbare hfits
  have hnode := Node.ofTokens_mappingTokens hbare
  have hcheck := Draft.check_eq_ok_iff.mpr hdrafts.faults
  rw [read, String.toList_ofList]
  simp only [hprintable, if_true, htokens, hnode, hcheck, hdrafts.value, bind, Except.bind, pure, Except.pure]

/-- With a key that is too long the text is not read. -/
theorem read_documentText_of_long {ns : List (Node × Node)} (hbare : (Node.mapping .map ns).IsBare)
    (hlong : Node.entriesFit ns = false) : ∃ f, read (String.ofList (Node.documentText ns)) = .error f := by
  have hprintable : (Node.documentText ns).all isPrintable = true :=
    List.all_eq_true.mpr (Node.isPrintable_documentText hbare)
  have hend := Node.streamEnd_not_mem_ofText hbare hlong
  rw [read, String.toList_ofList, if_pos hprintable]
  cases hnode : Node.ofTokens (TokenStream.ofText (Node.documentText ns)) with
  | ok n => exact absurd (Node.streamEnd_mem_of_ofTokens hnode) hend
  | error f => exact ⟨f, rfl⟩

/-- A map that is a document is written as a text that is read as what is read back from the map, if no key is too long. -/
theorem exists_text {es : Entries} (h : (Value.map es).IsDocument) :
    ∃ text, write (.map es) = .ok text ∧
      (Value.entriesFit es = true → read text =
        .ok (.map (Entries.ofPairs (Value.entriesReadBack 0 (mapValues (withNaN ScalarValue.notANumber) es))))) ∧
      (Value.entriesFit es = false → ∃ f, read text = .error f) := by
  cases h with
  | map _ hkeys _ hdocs =>
    obtain ⟨ns, hnode, hall⟩ := exists_ofEntries hkeys fun e he => exists_represents (hdocs e he)
    have hbare := Node.isBare_mapping_of_represents hall
    rw [← entriesFit_of_represents hall]
    refine ⟨String.ofList (Node.documentText ns), ?_, fun hfits => ?_, read_documentText_of_long hbare⟩
    · rw [write, ofValue_map, hnode]
      simp [Node.documentText, Except.map]
    · exact read_documentText hbare hfits (drafts_entriesReadBack hall 0)

end Yaml

namespace ConfigMap

/-- A map whose plain form is a document, open or sealed, is written as a text that is loaded as an open map with what is read
back of the texts and keys, and not at all if a key is too long. -/
theorem load_write_yaml (c : ConfigMap) (h : c.toValue.IsDocument) (r : Registry) (source : String) :
    ∃ text, c.write .yaml = .ok text ∧
      (Value.entriesFit c.plainEntries = true → ∃ d, Document.load r .yaml source text = .ok d ∧ d.isSealed = false ∧
        d.toValue = .map (Entries.ofPairs (Value.entriesReadBack 0
          (mapValues (withNaN Yaml.ScalarValue.notANumber) c.plainEntries)))) ∧
      (Value.entriesFit c.plainEntries = false → ∃ e, Document.load r .yaml source text = .error e) := by
  have hplain := Value.isDocument_withNaN Yaml.ScalarValue.notANumber h
  rw [toValue, withNaN_map] at hplain
  rw [toValue] at h
  obtain ⟨text, hwrite, hfits, hlong⟩ := Yaml.exists_text h
  refine ⟨text, by simp only [ConfigMap.write, Document.writeValue, toValue, hwrite], fun hfit => ?_, fun hfit => ?_⟩
  · have hback := hplain.entriesReadBack 0
    have hread : Document.readValue .yaml source text = .ok (.map (Entries.ofPairs (Value.entriesReadBack 0
        (mapValues (withNaN Yaml.ScalarValue.notANumber) c.plainEntries)))) := by
      simp only [Document.readValue, Document.readYaml, hfits hfit]
    exact ⟨_, Document.load_of_readValue hread hback r, rfl, hback.thaw_eq⟩
  · obtain ⟨f, hread⟩ := hlong hfit
    cases f <;> exact ⟨_, by simp only [Document.load, Document.read, Document.readValue, Document.readYaml, hread]; rfl⟩

/-- YAML gives back the plain form of a map exactly if all its texts and keys are kept; the floats that are no numbers are as
the reader has them. -/
theorem load_write_yaml_iff (c : ConfigMap) (h : c.toValue.IsDocument) (r : Registry) (source : String) :
    ∃ text, c.write .yaml = .ok text ∧
      ((∃ d, Document.load r .yaml source text = .ok d ∧ d.isSealed = false ∧
          d.toValue = c.toValue.withNaN Yaml.ScalarValue.notANumber) ↔
        Value.entriesKeepTexts 0 c.plainEntries = true) := by
  obtain ⟨text, hwrite, hfits, hlong⟩ := load_write_yaml c h r source
  refine ⟨text, hwrite, ?_⟩
  rw [toValue] at h
  rw [h.entriesKeepTexts_iff Yaml.ScalarValue.notANumber 0, toValue, withNaN_map]
  cases hfit : Value.entriesFit c.plainEntries with
  | false =>
    obtain ⟨e, hload⟩ := hlong hfit
    simp [hload]
  | true =>
    obtain ⟨d, hload, hopen, hback⟩ := hfits hfit
    simp only [hload, Except.ok.injEq, exists_eq_left', hopen, hback, Value.map.injEq, true_and]

/-- Several lines, with a line feed and with U+2028, a key that is no plain text, and a float that is no number. -/
theorem sealed_map_read_back_from_yaml :
    let c : ConfigMap := ⟨⟨[], 0⟩, [(.str "a", .frozenList [.str "x\n y", .float (Binary64.nan 7)]),
      (.str "- b", .frozenMap [(.str "12", .str "x\u2028y ")])], true⟩
    c.toValue.IsDocument ∧ Value.entriesKeepTexts 0 c.plainEntries = true ∧
      ∃ text d, c.write .yaml = .ok text ∧ Document.load c.registry .yaml Document.unnamed text = .ok d ∧
        d.isSealed = false ∧ d.toValue = c.toValue.withNaN Yaml.ScalarValue.notANumber := by
  intro c
  have hplain : c.toValue = .map [(.str "a", .list [.str "x\n y", .float (Binary64.nan 7)]),
      (.str "- b", .map [(.str "12", .str "x\u2028y ")])] := rfl
  have hlist : (Value.list [.str "x\n y", .float (Binary64.nan 7)]).IsDocument :=
    .list _ (by simpa using ⟨.str _, .float _⟩)
  have hmap : (Value.map [(.str "12", .str "x\u2028y ")]).IsDocument :=
    .map _ (by simp [Entries.HasTextKeys, Value.isString]) (by simp [Entries.Distinct]) (by simpa using .str _)
  have h : c.toValue.IsDocument := by
    rw [hplain]
    refine .map _ (by simp [Entries.HasTextKeys, Value.isString]) ?_ (by simpa using ⟨hlist, hmap⟩)
    simp [Entries.Distinct, Value.same_str_str]
  have hkept : Value.entriesKeepTexts 0 c.plainEntries = true := by decide +kernel
  obtain ⟨text, hwrite, hback⟩ := load_write_yaml_iff c h c.registry Document.unnamed
  obtain ⟨d, hload⟩ := hback.mpr hkept
  exact ⟨h, hkept, text, d, hwrite, hload⟩

/-- The keys and values of entries that are all texts. -/
def texts? : Entries → Option (List (String × String))
  | [] => some []
  | (.str key, .str s) :: es => (texts? es).map ((key, s) :: ·)
  | _ => none

theorem eq_of_texts? {es : Entries} {ps : List (String × String)} (h : texts? es = some ps) :
    es = ps.map fun p => (.str p.1, .str p.2) := by
  induction es generalizing ps with
  | nil =>
    obtain rfl := Option.some.inj h
    rfl
  | cons e es ih =>
    obtain ⟨k, v⟩ := e
    cases k <;> cases v <;> simp only [texts?, Option.map_eq_some_iff, reduceCtorEq] at h
    obtain ⟨qs, hqs, rfl⟩ := h
    rw [ih hqs, List.map_cons]

/-- The line break U+0085 between single quotes is read as a space. -/
theorem next_line_is_read_as_space :
    ∃ text d, (ConfigMap.mk ⟨[], 0⟩ [(.str "a", .str "x\x85y")] true).write .yaml = .ok text ∧
      Document.load ⟨[], 0⟩ .yaml Document.unnamed text = .ok d ∧ d.toValue = .map [(.str "a", .str "x y")] ∧
      d.toValue ≠ (ConfigMap.mk ⟨[], 0⟩ [(.str "a", .str "x\x85y")] true).toValue := by
  have hrun : ((ConfigMap.mk ⟨[], 0⟩ [(.str "a", .str "x\x85y")] true).write .yaml).toOption.bind (fun text =>
      (Document.load ⟨[], 0⟩ .yaml Document.unnamed text).toOption.bind fun d =>
        texts? d.entries) = some [("a", "x y")] := by decide +kernel
  obtain ⟨text, htext, hrun⟩ := Option.bind_eq_some_iff.mp hrun
  obtain ⟨d, hd, hrun⟩ := Option.bind_eq_some_iff.mp hrun
  have hvalue : d.toValue = .map [(.str "a", .str "x y")] := by
    rw [toValue, plainEntries, thawEntries_eq_mapValues, eq_of_texts? hrun]
    rfl
  refine ⟨text, d, toOption_eq_some.mp htext, toOption_eq_some.mp hd, hvalue, ?_⟩
  rw [hvalue]
  simp [toValue, plainEntries, thawEntries_eq_mapValues, mapValues]

end ConfigMap
end TopologyConfig
