import TopologyConfig.Proofs.Number.NaN
import TopologyConfig.Proofs.Value.Document
import TopologyConfig.Yaml.Reader

/-!
The values of YAML texts. A draft is built of scalars that were read under tags, whatever merges it took; so a value that
is no collection is the one of a scalar, the maps of a document name no key twice, and every float that is no number is
one of the two that scalars stand for.
-/
namespace TopologyConfig.Yaml

/-- Induction over the parts of a node. -/
@[elab_as_elim]
theorem Node.induction {P : Node → Prop} (scalar : ∀ t text, P (scalar t text))
    (sequence : ∀ t items, (∀ n ∈ items, P n) → P (sequence t items))
    (mapping : ∀ t es, (∀ e ∈ es, P e.1 ∧ P e.2) → P (mapping t es)) (n : Node) : P n :=
  @Node.rec P (fun ns => ∀ n ∈ ns, P n) (fun es => ∀ e ∈ es, P e.1 ∧ P e.2) (fun e => P e.1 ∧ P e.2)
    scalar sequence mapping
    (fun _ h => absurd h List.not_mem_nil) (fun _ _ hn hns => List.forall_mem_cons.mpr ⟨hn, hns⟩)
    (fun _ h => absurd h List.not_mem_nil) (fun _ _ he hes => List.forall_mem_cons.mpr ⟨he, hes⟩)
    (fun _ _ hk hv => ⟨hk, hv⟩) n

/-- A float that is no number is one of the two that texts stand for. -/
def Spelled (x : Binary64) : Prop := x.isNaN = true → x = Binary64.nan 0 ∨ x = ScalarValue.notANumber

section

variable {x y : Binary64}

theorem spelled_of_isNaN_eq_false (h : x.isNaN = false) : Spelled x := fun hnan => by
  rw [h] at hnan
  cases hnan

theorem Spelled.neg (h : Spelled x) : Spelled x.neg := fun hnan => by
  have hsame := Binary64.neg_eq_of_isNaN hnan
  rw [hsame] at hnan ⊢
  exact h hnan

theorem Spelled.add (hx : Spelled x) (hy : Spelled y) : Spelled (x.add y) := fun hnan => by
  rcases Binary64.add_eq_of_isNaN hnan with h | h | h
  · rw [h] at hnan ⊢
    exact hx hnan
  · rw [h] at hnan ⊢
    exact hy hnan
  · exact .inl h

theorem Spelled.mul (hx : Spelled x) (hy : Spelled y) : Spelled (x.mul y) := fun hnan => by
  rcases Binary64.mul_eq_of_isNaN hnan with h | h | h
  · rw [h] at hnan ⊢
    exact hx hnan
  · rw [h] at hnan ⊢
    exact hy hnan
  · exact .inl h

end

namespace ScalarValue

section

variable {x : Binary64}

theorem spelled_decimal {cs : List Char} (h : decimal cs = .ok x) : Spelled x := by
  unfold decimal at h
  dsimp only at h
  split at h
  · next hread =>
    cases h
    exact fun hnan => .inl (Binary64.read?_eq_of_isNaN hread hnan)
  · cases h

theorem spelled_of_mem_mapM {parts : List (List Char)} {xs : List Binary64} (h : parts.mapM decimal = .ok xs) :
    ∀ x ∈ xs, Spelled x := by
  induction parts generalizing xs with
  | nil =>
    cases h
    exact fun x hx => absurd hx List.not_mem_nil
  | cons cs parts ih =>
    rw [List.mapM_cons] at h
    obtain ⟨first, hfirst, h⟩ := bind_eq_ok.mp h
    obtain ⟨rest, hrest, h⟩ := bind_eq_ok.mp h
    cases h
    exact List.forall_mem_cons.mpr ⟨spelled_decimal hfirst, ih hrest⟩

theorem spelled_addSixties {sum : Binary64} {unit : Int} {ds : List Binary64} (hsum : Spelled sum)
    (hds : ∀ d ∈ ds, Spelled d) (h : addSixties sum unit ds = .ok x) : Spelled x := by
  induction ds generalizing sum unit with
  | nil =>
    cases h
    exact hsum
  | cons d ds ih =>
    obtain ⟨hd, hds⟩ := List.forall_mem_cons.mp hds
    unfold addSixties at h
    dsimp only at h
    split at h
    · cases h
    · have hscale : Spelled (Binary64.ofInt unit) := spelled_of_isNaN_eq_false (Binary64.isNaN_ofInt unit)
      exact ih (hsum.add (hd.mul hscale)) hds h

theorem float_eq_ok {text : String} {v : Value} (h : float text = .ok v) : ∃ x, v = .float x ∧ Spelled x := by
  obtain ⟨⟨negative, cs⟩, -, h⟩ := bind_eq_ok.mp h
  dsimp only at h
  split at h
  · cases h
    exact ⟨_, rfl, spelled_of_isNaN_eq_false (Binary64.isNaN_infinity negative)⟩
  · split at h
    · cases h
      exact ⟨_, rfl, fun _ => .inr rfl⟩
    · have hsigned {x : Binary64} (hx : Spelled x) (h : Value.float (if negative then x.neg else x) = v) :
          ∃ x, v = .float x ∧ Spelled x := by
        refine ⟨_, h.symm, ?_⟩
        split
        · exact hx.neg
        · exact hx
      split at h
      · obtain ⟨parts, hparts, h⟩ := bind_eq_ok.mp h
        obtain ⟨x, hx, h⟩ := bind_eq_ok.mp h
        have hmem : ∀ d ∈ parts.reverse, Spelled d := fun d hd =>
          spelled_of_mem_mapM hparts d (List.mem_reverse.mp hd)
        have hzero : Spelled (Binary64.zero false) := spelled_of_isNaN_eq_false (Binary64.isNaN_zero false)
        exact hsigned (spelled_addSixties hzero hmem hx) (Except.ok.inj h)
      · obtain ⟨x, hx, h⟩ := bind_eq_ok.mp h
        exact hsigned (spelled_decimal hx) (Except.ok.inj h)

theorem int_eq_ok {text : String} {v : Value} (h : int text = .ok v) : ∃ n, v = .int n := by
  obtain ⟨⟨negative, cs⟩, -, h⟩ := bind_eq_ok.mp h
  dsimp only at h
  split at h
  all_goals try split at h
  all_goals
    obtain ⟨n, -, h⟩ := bind_eq_ok.mp h
    exact ⟨_, (Except.ok.inj h).symm⟩

theorem timestampOf_eq_ok {p : Plain.TimestampParts} {v : Value} (h : timestampOf p = .ok v) :
    (∃ d, v = .date d) ∨ ∃ t, v = .timestamp t := by
  unfold timestampOf at h
  dsimp only at h
  split at h
  · split at h
    · cases h
    · cases h
      exact .inl ⟨_, rfl⟩
  · split at h
    all_goals
      obtain ⟨zone, -, h⟩ := bind_eq_ok.mp h
      split at h
      · cases h
      · cases h
        exact .inr ⟨_, rfl⟩

end

end ScalarValue

/-- The value of a scalar has no parts. -/
theorem Tag.isLeaf_of_valueOf {t : Tag} {text : String} {v : Value} (h : t.valueOf text = .ok v) :
    v.isLeaf = true ∧ ∀ x ∈ v.floats, Spelled x := by
  have hplain {w : Value} (hleaf : w.isLeaf = true) (hfloats : w.floats = []) (hw : w = v) :
      v.isLeaf = true ∧ ∀ x ∈ v.floats, Spelled x := by
    subst hw
    exact ⟨hleaf, by simp [hfloats]⟩
  cases t with
  | null => exact hplain rfl rfl (Except.ok.inj h)
  | str => exact hplain rfl rfl (Except.ok.inj h)
  | bool =>
    rw [valueOf, ScalarValue.bool] at h
    split at h
    · exact hplain rfl rfl (Except.ok.inj h)
    · cases h
  | int =>
    obtain ⟨n, rfl⟩ := ScalarValue.int_eq_ok h
    exact hplain rfl rfl rfl
  | float =>
    obtain ⟨x, rfl, hx⟩ := ScalarValue.float_eq_ok h
    exact ⟨rfl, by simpa [Value.floats] using hx⟩
  | binary =>
    rw [valueOf, ScalarValue.binary] at h
    split at h
    · split at h
      · exact hplain rfl rfl (Except.ok.inj h)
      · cases h
    · cases h
  | timestamp =>
    rw [valueOf, ScalarValue.timestamp] at h
    split at h
    · obtain ⟨d, rfl⟩ | ⟨t, rfl⟩ := ScalarValue.timestampOf_eq_ok h
      · exact hplain rfl rfl rfl
      · exact hplain rfl rfl rfl
    · cases h
  | _ => cases h

namespace Draft

/-- The values in the draft are those of scalars. -/
inductive IsRead : Draft → Prop where
  | failed (f : Fault) : IsRead (.failed f)
  | ready (t : Tag) (text : String) {v : Value} (h : t.valueOf text = .ok v) : IsRead (.ready v)
  | list {items : List Draft} (h : ∀ d ∈ items, IsRead d) : IsRead (.list items)
  | map {es : List (Draft × Draft)} (hkeys : ∀ e ∈ es, IsRead e.1) (h : ∀ e ∈ es, IsRead e.2) : IsRead (.map es)
  | set {es : List (Draft × Draft)} (hkeys : ∀ e ∈ es, IsRead e.1) (h : ∀ e ∈ es, IsRead e.2) : IsRead (.set es)
  | pairs {es : List (Draft × Draft)} (hkeys : ∀ e ∈ es, IsRead e.1) (h : ∀ e ∈ es, IsRead e.2) : IsRead (.pairs es)
  | broken (parts : List Draft) (f : Fault) : IsRead (.broken parts f)

/-- The values in the drafts of the entries are those of scalars. -/
def AreRead (es : List (Draft × Draft)) : Prop := ∀ e ∈ es, e.1.IsRead ∧ e.2.IsRead

section

variable {es fs : List (Draft × Draft)} {ns : List Node} {ms : List (Node × Node)}

theorem AreRead.keys (h : AreRead es) : ∀ e ∈ es, e.1.IsRead := fun e he => (h e he).1

theorem AreRead.values (h : AreRead es) : ∀ e ∈ es, e.2.IsRead := fun e he => (h e he).2

theorem AreRead.append (hes : AreRead es) (hfs : AreRead fs) : AreRead (es ++ fs) :=
  List.forall_mem_append.mpr ⟨hes, hfs⟩

theorem areRead_nil : AreRead [] := fun _ h => absurd h List.not_mem_nil

theorem isRead_valueOf (t : Tag) (text : String) : (ofResult (t.valueOf text)).IsRead := by
  cases h : t.valueOf text with
  | ok v => exact .ready t text h
  | error f => exact .failed f

theorem isRead_ofScalar (t : Tag) (text : String) : (ofScalar t text).IsRead := by
  unfold ofScalar
  split
  · exact .broken [] _
  · exact .broken [] _
  · exact .broken [] _
  · exact .broken [] _
  · exact .broken [] _
  · exact isRead_valueOf t text

theorem isRead_ofDefault (t : Tag) (text? : Option String) : (ofDefault t text?).IsRead := by
  unfold ofDefault
  split
  · exact .failed _
  · exact .failed _
  · exact isRead_valueOf _ _

/-- What a node is made into, as a part of its own, as a pair and as the source of a merge. -/
structure Reads (n : Node) : Prop where
  draft : ∀ t, (ofNode t n).IsRead
  pair : ∀ e, pairOf n = some e → e.1.IsRead ∧ e.2.IsRead
  source : ∀ es, mergeSource n = .ok es → AreRead es
  single : ∀ es, oneSource n = .ok es → AreRead es

theorem isRead_of_mem_ofItems (h : ∀ n ∈ ns, Reads n) : ∀ d ∈ ofItems ns, d.IsRead := by
  induction ns with
  | nil => exact fun d hd => absurd hd (by rw [ofItems]; exact List.not_mem_nil)
  | cons n ns ih =>
    obtain ⟨hn, hns⟩ := List.forall_mem_cons.mp h
    rw [ofItems]
    exact List.forall_mem_cons.mpr ⟨hn.draft _, ih hns⟩

theorem areRead_pairsOf (h : ∀ n ∈ ns, Reads n) : AreRead (pairsOf ns).entries := by
  induction ns with
  | nil =>
    rw [pairsOf]
    exact areRead_nil
  | cons n ns ih =>
    obtain ⟨hn, hns⟩ := List.forall_mem_cons.mp h
    rw [pairsOf]
    split
    · exact areRead_nil
    · next e he => exact List.forall_mem_cons.mpr ⟨hn.pair e he, ih hns⟩

theorem areRead_mergeSources (h : ∀ n ∈ ns, Reads n) {sources : List (List (Draft × Draft))}
    (hsources : mergeSources ns = .ok sources) : ∀ es ∈ sources, AreRead es := by
  induction ns generalizing sources with
  | nil =>
    rw [mergeSources] at hsources
    cases hsources
    exact fun es hes => absurd hes List.not_mem_nil
  | cons n ns ih =>
    obtain ⟨hn, hns⟩ := List.forall_mem_cons.mp h
    rw [mergeSources] at hsources
    obtain ⟨first, hfirst, hsources⟩ := bind_eq_ok.mp hsources
    obtain ⟨rest, hrest, hsources⟩ := bind_eq_ok.mp hsources
    cases hsources
    exact List.forall_mem_cons.mpr ⟨hn.single first hfirst, ih hns hrest⟩

theorem areRead_flatten (h : ∀ e ∈ ms, Reads e.1 ∧ Reads e.2) {f : Flat} (hf : flatten ms = .ok f) :
    AreRead f.merged ∧ AreRead f.own := by
  induction ms generalizing f with
  | nil =>
    rw [flatten] at hf
    cases hf
    exact ⟨areRead_nil, areRead_nil⟩
  | cons m ms ih =>
    obtain ⟨k, v⟩ := m
    obtain ⟨⟨hk, hv⟩, hms⟩ := List.forall_mem_cons.mp h
    rw [flatten] at hf
    split at hf
    · obtain ⟨source, hsource, hf⟩ := bind_eq_ok.mp hf
      obtain ⟨rest, hrest, hf⟩ := bind_eq_ok.mp hf
      cases hf
      obtain ⟨hmerged, hown⟩ := ih hms hrest
      exact ⟨(hv.source source hsource).append hmerged, hown⟩
    · obtain ⟨rest, hrest, hf⟩ := bind_eq_ok.mp hf
      cases hf
      obtain ⟨hmerged, hown⟩ := ih hms hrest
      exact ⟨hmerged, List.forall_mem_cons.mpr ⟨⟨hk.draft _, hv.draft _⟩, hown⟩⟩

theorem areRead_all (h : ∀ e ∈ ms, Reads e.1 ∧ Reads e.2) {f : Flat} (hf : flatten ms = .ok f) : AreRead f.all := by
  obtain ⟨hmerged, hown⟩ := areRead_flatten h hf
  exact hmerged.append hown

theorem areRead_onlyEntry (h : ∀ e ∈ ms, Reads e.1 ∧ Reads e.2) {e : Draft × Draft} (he : onlyEntry ms = some e) :
    e.1.IsRead ∧ e.2.IsRead := by
  cases ms with
  | nil =>
    rw [onlyEntry] at he
    cases he
  | cons m ms =>
    obtain ⟨k, v⟩ := m
    obtain ⟨⟨hk, hv⟩, -⟩ := List.forall_mem_cons.mp h
    rw [onlyEntry] at he
    split at he
    · cases he
      exact ⟨hk.draft _, hv.draft _⟩
    · cases he

theorem isRead_pairList {p : PairList} (h : AreRead p.entries) : p.draft.IsRead := by
  unfold PairList.draft
  split
  · exact .pairs h.keys h.values
  · exact .broken _ _

theorem isRead_ofFlat {wrap : List (Draft × Draft) → Draft} (hwrap : ∀ es, AreRead es → (wrap es).IsRead)
    (h : ∀ e ∈ ms, Reads e.1 ∧ Reads e.2) : (ofFlat wrap (flatten ms)).IsRead := by
  cases hf : flatten ms with
  | ok f => exact hwrap _ (areRead_all h hf)
  | error f => exact .broken [] f

theorem reads (n : Node) : Reads n := by
  induction n using Node.induction with
  | scalar t text =>
    refine ⟨fun t => ?_, fun e he => ?_, fun es hes => ?_, fun es hes => ?_⟩
    · rw [ofNode]
      exact isRead_ofScalar t text
    · cases he
    · rw [mergeSource] at hes
      cases hes
    · cases hes
  | sequence t items ih =>
    refine ⟨fun t => ?_, fun e he => ?_, fun es hes => ?_, fun es hes => ?_⟩
    · unfold ofNode
      split
      · exact .list (isRead_of_mem_ofItems ih)
      · exact isRead_pairList (areRead_pairsOf ih)
      · exact isRead_pairList (areRead_pairsOf ih)
      · exact .broken [] _
      · exact .broken [] _
      · exact .failed _
    · cases he
    · rw [mergeSource] at hes
      obtain ⟨sources, hsources, hes⟩ := bind_eq_ok.mp hes
      cases hes
      intro e he
      obtain ⟨source, hsource, he⟩ := List.mem_flatten.mp he
      exact areRead_mergeSources ih hsources source (List.mem_reverse.mp hsource) e he
    · cases hes
  | mapping t es ih =>
    refine ⟨fun t => ?_, fun e he => ?_, fun fs hfs => ?_, fun fs hfs => ?_⟩
    · unfold ofNode
      split
      · exact isRead_ofFlat (fun es h => .map h.keys h.values) ih
      · exact isRead_ofFlat (fun es h => .set h.keys h.values) ih
      · exact .broken [] _
      · exact .broken [] _
      · exact .broken [] _
      · exact isRead_ofDefault _ _
    · rw [pairOf] at he
      exact areRead_onlyEntry ih he
    · rw [mergeSource] at hfs
      obtain ⟨f, hf, hfs⟩ := bind_eq_ok.mp hfs
      cases hfs
      exact areRead_all ih hf
    · rw [oneSource] at hfs
      obtain ⟨f, hf, hfs⟩ := bind_eq_ok.mp hfs
      cases hfs
      exact areRead_all ih hf

end

theorem values_eq_map (ds : List Draft) : values ds = ds.map value := by
  induction ds with
  | nil => rfl
  | cons d ds ih => rw [values, ih, List.map_cons]

theorem entryValues_eq_map (es : List (Draft × Draft)) : entryValues es = es.map fun e => (e.1.value, e.2.value) := by
  induction es with
  | nil => rfl
  | cons e es ih => rw [entryValues, ih, List.map_cons]

theorem IsRead.spelled {d : Draft} (h : d.IsRead) : ∀ x ∈ d.value.thaw.floats, Spelled x := by
  induction h with
  | failed f => exact fun x hx => absurd hx List.not_mem_nil
  | broken parts f => exact fun x hx => absurd hx List.not_mem_nil
  | set => exact fun x hx => absurd hx List.not_mem_nil
  | ready t text h =>
    obtain ⟨hleaf, hfloats⟩ := Tag.isLeaf_of_valueOf h
    rw [value, Value.thaw_of_isLeaf hleaf]
    exact hfloats
  | list h ih =>
    rw [value, values_eq_map, Value.thaw_list, Value.floats_list, List.map_map]
    intro x hx
    obtain ⟨v, hv, hx⟩ := List.mem_flatMap.mp hx
    obtain ⟨d, hd, rfl⟩ := List.mem_map.mp hv
    exact ih d hd x hx
  | @map es hkeys h ihkeys ih =>
    rw [value, entryValues_eq_map, Value.thaw_map, Value.floats_map]
    intro x hx
    obtain ⟨e, he, hx⟩ := List.mem_flatMap.mp hx
    obtain ⟨d, hd, rfl⟩ := Value.mem_mapValues.mp he
    have hvalues : ∀ p ∈ es.map fun e => (e.1.value, e.2.value), ∀ x ∈ p.2.thaw.floats, Spelled x :=
      List.forall_mem_map.mpr ih
    have hholds : Entries.Holds (fun _ => True) (fun v => ∀ x ∈ v.thaw.floats, Spelled x)
        (Entries.ofPairs (es.map fun e => (e.1.value, e.2.value))) := Entries.holds_ofPairs (fun _ _ => trivial) hvalues
    exact hholds.values d hd x hx
  | pairs hkeys h ihkeys ih =>
    rw [value, entryValues_eq_map, Value.thaw_list, Value.floats_list]
    intro x hx
    obtain ⟨v, hv, hx⟩ := List.mem_flatMap.mp hx
    simp only [List.map_map, List.mem_map, Function.comp_apply] at hv
    obtain ⟨e, he, rfl⟩ := hv
    simp only [Value.thaw_tuple, List.map_cons, List.map_nil, Value.floats_list, List.flatMap_cons, List.flatMap_nil,
      List.append_nil, List.mem_append] at hx
    rcases hx with hx | hx
    · exact ihkeys e he x hx
    · exact ih e he x hx

theorem IsRead.distinct {d : Draft} (h : d.IsRead) {es : Entries} (hvalue : d.value = .map es) : es.Distinct := by
  cases h with
  | ready t text h =>
    rw [value] at hvalue
    have hleaf := (Tag.isLeaf_of_valueOf h).1
    rw [hvalue] at hleaf
    cases hleaf
  | @map ds hkeys h =>
    rw [value] at hvalue
    obtain rfl := Value.map.inj hvalue
    have hholds : Entries.Holds (fun _ => True) (fun _ => True) (Entries.ofPairs (entryValues ds)) :=
      Entries.holds_ofPairs (fun _ _ => trivial) fun _ _ => trivial
    exact hholds.distinct
  | _ => cases hvalue

end Draft

/-- The keys of a document are distinct, and its floats that are no number are among those that texts stand for. -/
theorem read_eq_ok {text : String} {v : Value} (h : read text = .ok v) :
    (∀ es : Entries, v = .map es → es.Distinct) ∧ ∀ x ∈ v.thaw.floats, Spelled x := by
  unfold read at h
  dsimp only at h
  split at h
  · obtain ⟨n?, -, h⟩ := bind_eq_ok.mp h
    cases n? with
    | none =>
      cases h
      exact ⟨fun es he => (nomatch he), fun x hx => absurd hx List.not_mem_nil⟩
    | some n =>
      obtain ⟨-, -, h⟩ := bind_eq_ok.mp h
      cases h
      have hread := (Draft.reads n).draft n.tag
      exact ⟨fun es he => hread.distinct he, hread.spelled⟩
  · cases h

end TopologyConfig.Yaml
