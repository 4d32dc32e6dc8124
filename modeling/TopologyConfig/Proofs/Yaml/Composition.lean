import TopologyConfig.Proofs.Yaml.Written

/-!
Nodes from their tokens. The tokens of a node are read as the node with its texts as they are read back, whatever follows
them; only a sequence that is not indented has no end of its own, so no item may follow it.
-/
namespace TopologyConfig.Yaml

/-- The tokens that a node without an anchor or a tag begins with. -/
inductive Token.Opens : Token → Prop where
  | scalar (plain : Bool) (text : String) : Opens (.scalar plain text)
  | blockSequence : Opens .blockSequenceStart
  | blockMapping : Opens .blockMappingStart
  | flowSequence : Opens .flowSequenceStart
  | flowMapping : Opens .flowMappingStart
  | blockEntry : Opens .blockEntry

namespace NodeReader

variable {r r' : NodeReader} {t : Token} {rest : List Token} {fuel : Nat} {block indentless : Bool} {items : List Node}
  {es : List (Node × Node)}

theorem peek_eq (h : r.tokens = t :: rest) : r.peek = .ok t := by rw [peek, h]

theorem next_eq (h : r.tokens = t :: rest) : r.next = { r with tokens := rest } := by
  rw [next, h, List.drop_one, List.tail_cons]

theorem properties_eq (h : r.tokens = t :: rest) (ht : t.Opens) : r.properties = .ok (⟨none, none⟩, r) := by
  have hpeek := peek_eq h
  have hanchor : r.anchor = .ok (none, r) := by
    rw [anchor, hpeek]
    cases ht <;> rfl
  have htag : r.tag = .ok (none, r) := by
    rw [NodeReader.tag, hpeek]
    cases ht <;> rfl
  rw [properties, hanchor]
  change (r.tag >>= _) = _
  rw [htag]
  rfl

/-! One node, by the token that it begins with. -/

theorem readNode_scalar {plain : Bool} {text : String} (h : r.tokens = .scalar plain text :: rest) :
    readNode block indentless (fuel + 1) r =
      .ok (.scalar (if plain then Tag.ofPlain text else .str) text, { r with tokens := rest }) := by
  have hproperties := properties_eq h (.scalar plain text)
  rw [readNode, peek_eq h]
  change (r.properties >>= _) = _
  rw [hproperties]
  change (r.peek >>= _) = _
  rw [peek_eq h, ← next_eq h]
  rfl

theorem readNode_blockSequence (h : r.tokens = .blockSequenceStart :: rest)
    (hitems : readBlockItems fuel { r with tokens := rest } = .ok (items, r')) :
    readNode true indentless (fuel + 1) r = .ok (.sequence .seq items, r') := by
  have hproperties := properties_eq h .blockSequence
  rw [← next_eq h] at hitems
  rw [readNode, peek_eq h]
  change (r.properties >>= _) = _
  rw [hproperties]
  change (r.peek >>= _) = _
  rw [peek_eq h]
  change (readBlockItems fuel r.next >>= _) = _
  rw [hitems]
  rfl

theorem readNode_indentless (h : r.tokens = .blockEntry :: rest)
    (hitems : readIndentlessItems fuel r = .ok (items, r')) :
    readNode block true (fuel + 1) r = .ok (.sequence .seq items, r') := by
  have hproperties := properties_eq h .blockEntry
  rw [readNode, peek_eq h]
  change (r.properties >>= _) = _
  rw [hproperties]
  change (r.peek >>= _) = _
  rw [peek_eq h]
  change (readIndentlessItems fuel r >>= _) = _
  rw [hitems]
  rfl

theorem readNode_blockMapping (h : r.tokens = .blockMappingStart :: rest)
    (hentries : readBlockEntries fuel { r with tokens := rest } = .ok (es, r')) :
    readNode true indentless (fuel + 1) r = .ok (.mapping .map es, r') := by
  have hproperties := properties_eq h .blockMapping
  rw [← next_eq h] at hentries
  rw [readNode, peek_eq h]
  change (r.properties >>= _) = _
  rw [hproperties]
  change (r.peek >>= _) = _
  rw [peek_eq h]
  change (readBlockEntries fuel r.next >>= _) = _
  rw [hentries]
  rfl

theorem readNode_emptySequence (h : r.tokens = .flowSequenceStart :: .flowSequenceEnd :: rest) :
    readNode block indentless (fuel + 2) r = .ok (.sequence .seq [], { r with tokens := rest }) := by
  have hproperties := properties_eq h .flowSequence
  have hnext : r.next.tokens = .flowSequenceEnd :: rest := by rw [next_eq h]
  have hitems : readFlowItems true (fuel + 1) r.next = .ok ([], { r with tokens := rest }) := by
    rw [readFlowItems, peek_eq hnext]
    change Except.ok ([], r.next.next) = _
    rw [next_eq hnext, next_eq h]
  rw [readNode, peek_eq h]
  change (r.properties >>= _) = _
  rw [hproperties]
  change (r.peek >>= _) = _
  rw [peek_eq h]
  change (readFlowItems true (fuel + 1) r.next >>= _) = _
  rw [hitems]
  rfl

theorem readNode_emptyMapping (h : r.tokens = .flowMappingStart :: .flowMappingEnd :: rest) :
    readNode block indentless (fuel + 2) r = .ok (.mapping .map [], { r with tokens := rest }) := by
  have hproperties := properties_eq h .flowMapping
  have hnext : r.next.tokens = .flowMappingEnd :: rest := by rw [next_eq h]
  have hentries : readFlowEntries true (fuel + 1) r.next = .ok ([], { r with tokens := rest }) := by
    rw [readFlowEntries, peek_eq hnext]
    change Except.ok ([], r.next.next) = _
    rw [next_eq hnext, next_eq h]
  rw [readNode, peek_eq h]
  change (r.properties >>= _) = _
  rw [hproperties]
  change (r.peek >>= _) = _
  rw [peek_eq h]
  change (readFlowEntries true (fuel + 1) r.next >>= _) = _
  rw [hentries]
  rfl

theorem readUnless_eq {stops : List Token} (h : r.tokens = t :: rest) (ht : t ∉ stops) :
    readUnless block indentless stops (fuel + 1) r = readNode block indentless fuel r := by
  have hstop : ¬ stops.contains t = true := by simpa using ht
  rw [readUnless, peek_eq h]
  exact if_neg hstop

/-! Items and entries. -/

theorem readBlockItems_item {x : Node} (h : r.tokens = .blockEntry :: rest)
    (hitem : readUnless true false [.blockEntry, .blockEnd] fuel { r with tokens := rest } = .ok (x, r'))
    {r'' : NodeReader} (hitems : readBlockItems fuel r' = .ok (items, r'')) :
    readBlockItems (fuel + 1) r = .ok (x :: items, r'') := by
  rw [← next_eq h] at hitem
  rw [readBlockItems, peek_eq h]
  change (readUnless true false [.blockEntry, .blockEnd] fuel r.next >>= _) = _
  rw [hitem]
  change (readBlockItems fuel r' >>= _) = _
  rw [hitems]
  rfl

theorem readBlockItems_end (h : r.tokens = .blockEnd :: rest) :
    readBlockItems (fuel + 1) r = .ok ([], { r with tokens := rest }) := by
  rw [readBlockItems, peek_eq h, ← next_eq h]
  rfl

theorem readIndentlessItems_item {x : Node} (h : r.tokens = .blockEntry :: rest)
    (hitem : readUnless true false [.blockEntry, .key, .value, .blockEnd] fuel { r with tokens := rest } = .ok (x, r'))
    {r'' : NodeReader} (hitems : readIndentlessItems fuel r' = .ok (items, r'')) :
    readIndentlessItems (fuel + 1) r = .ok (x :: items, r'') := by
  rw [← next_eq h] at hitem
  rw [readIndentlessItems, peek_eq h]
  change (readUnless true false [.blockEntry, .key, .value, .blockEnd] fuel r.next >>= _) = _
  rw [hitem]
  change (readIndentlessItems fuel r' >>= _) = _
  rw [hitems]
  rfl

theorem readIndentlessItems_end (h : r.tokens = t :: rest) (ht : t ≠ .blockEntry) :
    readIndentlessItems (fuel + 1) r = .ok ([], r) := by
  rw [readIndentlessItems, peek_eq h]
  cases t <;> first | rfl | exact absurd rfl ht

theorem readBlockEntries_entry {k v : Node} {r₁ r₂ r₃ : NodeReader} (h : r.tokens = .key :: rest)
    (hkey : readUnless true true [.key, .value, .blockEnd] fuel { r with tokens := rest } = .ok (k, r₁))
    (hvalue : readBlockValue fuel r₁ = .ok (v, r₂)) (hentries : readBlockEntries fuel r₂ = .ok (es, r₃)) :
    readBlockEntries (fuel + 1) r = .ok ((k, v) :: es, r₃) := by
  rw [← next_eq h] at hkey
  rw [readBlockEntries, peek_eq h]
  change (readUnless true true [.key, .value, .blockEnd] fuel r.next >>= _) = _
  rw [hkey]
  change (readBlockValue fuel r₁ >>= _) = _
  rw [hvalue]
  change (readBlockEntries fuel r₂ >>= _) = _
  rw [hentries]
  rfl

theorem readBlockValue_eq (h : r.tokens = .value :: rest) :
    readBlockValue (fuel + 1) r = readUnless true true [.key, .value, .blockEnd] fuel { r with tokens := rest } := by
  rw [readBlockValue, peek_eq h, ← next_eq h]
  rfl

theorem readBlockEntries_end (h : r.tokens = .blockEnd :: rest) :
    readBlockEntries (fuel + 1) r = .ok ([], { r with tokens := rest }) := by
  rw [readBlockEntries, peek_eq h, ← next_eq h]
  rfl

end NodeReader

namespace Node

open NodeReader

mutual

/-- The node that is read back from its text in a collection at column `m`, or behind a key on its line there. -/
def readBack (isKey keyed : Bool) (m : Nat) : Node → Node
  | scalar t text => scalar t (readText isKey (m + 2) t text)
  | sequence t items => sequence t (itemsReadBack (if keyed then m else m + 2) items)
  | mapping t es => mapping t (entriesReadBack (m + 2) es)

def itemsReadBack (n : Nat) : List Node → List Node
  | [] => []
  | x :: xs => readBack false false n x :: itemsReadBack n xs

def entriesReadBack (n : Nat) : List (Node × Node) → List (Node × Node)
  | [] => []
  | (k, v) :: es => (readBack k.isSimpleKey false n k, readBack false k.isSimpleKey n v) :: entriesReadBack n es

end

variable {isKey keyed indentless : Bool} {m n : Nat} {x : Node} {fuel : Nat} {r : NodeReader} {t : Token}
  {rest : List Token}

theorem tokens_opens (isKey keyed : Bool) (m : Nat) (x : Node) :
    ∃ t ts, x.tokens isKey keyed m = t :: ts ∧ t.Opens ∧ (keyed = false → t ≠ .blockEntry) := by
  cases x with
  | scalar tag text => exact ⟨_, _, rfl, .scalar _ _, by simp⟩
  | sequence tag items =>
    rw [tokens]
    split
    · exact ⟨_, _, rfl, .flowSequence, by simp⟩
    · next hne =>
      split
      · next hkeyed =>
        obtain ⟨x, xs, rfl⟩ := List.exists_cons_of_ne_nil (fun he => hne (he ▸ rfl) : items ≠ [])
        exact ⟨_, _, rfl, .blockEntry, fun h => by simp [h] at hkeyed⟩
      · exact ⟨_, _, rfl, .blockSequence, by simp⟩
  | mapping tag es =>
    rw [tokens]
    split
    · exact ⟨_, _, rfl, .flowMapping, by simp⟩
    · exact ⟨_, _, rfl, .blockMapping, by simp⟩

/-- The node is read back from its tokens, unless an item follows that may be taken for its own. -/
def IsComposed (isKey keyed : Bool) (m : Nat) (x : Node) : Prop :=
  ∀ (r : NodeReader) (fuel : Nat) (rest : List Token) (indentless : Bool),
    (keyed = true → indentless = true ∧ ∃ t ts, rest = t :: ts ∧ t ≠ .blockEntry) →
    4 * (x.tokens isKey keyed m).length + 2 ≤ fuel →
    readNode true indentless fuel { r with tokens := x.tokens isKey keyed m ++ rest } =
      .ok (x.readBack isKey keyed m, { r with tokens := rest })

theorem IsComposed.readUnless (h : IsComposed isKey keyed m x) (r : NodeReader) {stops : List Token}
    (hrest : keyed = true → indentless = true ∧ ∃ t ts, rest = t :: ts ∧ t ≠ .blockEntry)
    (hstops : ∀ t : Token, t.Opens → (keyed = false → t ≠ .blockEntry) → t ∉ stops)
    (hfuel : 4 * (x.tokens isKey keyed m).length + 3 ≤ fuel) :
    NodeReader.readUnless true indentless stops fuel { r with tokens := x.tokens isKey keyed m ++ rest } =
      .ok (x.readBack isKey keyed m, { r with tokens := rest }) := by
  obtain ⟨f, rfl⟩ := Nat.exists_eq_add_of_le' (Nat.le_of_add_left_le hfuel)
  obtain ⟨t, ts, hx, hopens, hentry⟩ := tokens_opens isKey keyed m x
  have hfirst : ({ r with tokens := x.tokens isKey keyed m ++ rest } : NodeReader).tokens = t :: (ts ++ rest) := by
    rw [hx, List.cons_append]
  rw [readUnless_eq hfirst (hstops t hopens hentry)]
  exact h r _ rest indentless hrest (by omega)

/-- In place of an item there is no stop. -/
theorem opens_ne_stop (ht : t.Opens) (hentry : t ≠ .blockEntry) : t ∉ [Token.blockEntry, .key, .value, .blockEnd] := by
  cases ht <;> simp at hentry ⊢

/-- In place of a key or a value there is no stop. -/
theorem opens_ne_keyStop (ht : t.Opens) : t ∉ [Token.key, .value, .blockEnd] := by
  cases ht <;> simp

theorem readBlockItems_tokens (r : NodeReader) (rest : List Token) {items : List Node}
    (h : ∀ x ∈ items, IsComposed false false n x) (hfuel : 4 * (itemTokens n items).length + 1 ≤ fuel) :
    readBlockItems fuel { r with tokens := itemTokens n items ++ .blockEnd :: rest } =
      .ok (itemsReadBack n items, { r with tokens := rest }) := by
  induction items generalizing fuel with
  | nil =>
    obtain ⟨f, rfl⟩ := Nat.exists_eq_add_of_le' (Nat.le_of_add_left_le hfuel)
    exact readBlockItems_end rfl
  | cons x xs ih =>
    obtain ⟨hx, hxs⟩ := List.forall_mem_cons.mp h
    obtain ⟨f, rfl⟩ := Nat.exists_eq_add_of_le' (Nat.le_of_add_left_le hfuel)
    rw [itemTokens, itemsReadBack, List.cons_append, List.append_assoc]
    simp only [itemTokens, List.length_cons, List.length_append] at hfuel
    have hstops : ∀ t : Token, t.Opens → (false = false → t ≠ .blockEntry) → t ∉ [Token.blockEntry, .blockEnd] := by
      intro t ht hentry
      have hstop := opens_ne_stop ht (hentry rfl)
      simp at hstop ⊢
      tauto
    refine readBlockItems_item rfl ?_ (ih hxs (by omega))
    exact hx.readUnless r (fun he => absurd he Bool.false_ne_true) hstops (by omega)

theorem readIndentlessItems_tokens (r : NodeReader) (rest : List Token) {items : List Node}
    (h : ∀ x ∈ items, IsComposed false false n x) (ht : t ≠ .blockEntry)
    (hfuel : 4 * (itemTokens n items).length + 1 ≤ fuel) :
    readIndentlessItems fuel { r with tokens := itemTokens n items ++ t :: rest } =
      .ok (itemsReadBack n items, { r with tokens := t :: rest }) := by
  induction items generalizing fuel with
  | nil =>
    obtain ⟨f, rfl⟩ := Nat.exists_eq_add_of_le' (Nat.le_of_add_left_le hfuel)
    exact readIndentlessItems_end rfl ht
  | cons x xs ih =>
    obtain ⟨hx, hxs⟩ := List.forall_mem_cons.mp h
    obtain ⟨f, rfl⟩ := Nat.exists_eq_add_of_le' (Nat.le_of_add_left_le hfuel)
    rw [itemTokens, itemsReadBack, List.cons_append, List.append_assoc]
    simp only [itemTokens, List.length_cons, List.length_append] at hfuel
    refine readIndentlessItems_item rfl ?_ (ih hxs (by omega))
    exact hx.readUnless r (fun he => absurd he Bool.false_ne_true) (fun t ht hentry => opens_ne_stop ht (hentry rfl)) (by omega)

theorem readBlockEntries_tokens (r : NodeReader) (rest : List Token) {es : List (Node × Node)}
    (hkeys : ∀ e ∈ es, IsComposed e.1.isSimpleKey false n e.1) (hvalues : ∀ e ∈ es, IsComposed false e.1.isSimpleKey n e.2)
    (hfuel : 4 * (entryTokens n es).length + 1 ≤ fuel) :
    readBlockEntries fuel { r with tokens := entryTokens n es ++ .blockEnd :: rest } =
      .ok (entriesReadBack n es, { r with tokens := rest }) := by
  induction es generalizing fuel with
  | nil =>
    obtain ⟨f, rfl⟩ := Nat.exists_eq_add_of_le' (Nat.le_of_add_left_le hfuel)
    exact readBlockEntries_end rfl
  | cons e es ih =>
    obtain ⟨k, v⟩ := e
    obtain ⟨hkey, hkeys⟩ := List.forall_mem_cons.mp hkeys
    obtain ⟨hvalue, hvalues⟩ := List.forall_mem_cons.mp hvalues
    rw [entryTokens, entriesReadBack, List.cons_append, List.append_assoc, List.cons_append, List.append_assoc]
    simp only [entryTokens, List.length_cons, List.length_append] at hfuel
    -- Behind a value comes another key, or the end of the mapping.
    have hrest : ∃ t ts, entryTokens n es ++ .blockEnd :: rest = t :: ts ∧ t ≠ .blockEntry := by
      cases es with
      | nil => exact ⟨_, _, rfl, by simp⟩
      | cons e es => exact ⟨_, _, rfl, by simp⟩
    obtain ⟨f, rfl⟩ : ∃ f, fuel = f + 2 := ⟨fuel - 2, by omega⟩
    refine readBlockEntries_entry rfl
      (hkey.readUnless r (fun he => absurd he Bool.false_ne_true) (fun t ht _ => opens_ne_keyStop ht) (by dsimp only; omega)) ?_
      (ih hkeys hvalues (by omega))
    rw [readBlockValue_eq rfl]
    exact hvalue.readUnless r (fun _ => ⟨rfl, hrest⟩) (fun t ht _ => opens_ne_keyStop ht) (by dsimp only; omega)

/-- A text without a tag has its tag back. -/
theorem tag_of_isUntagged {tag : Tag} {text : String} (h : IsUntagged isKey tag text) :
    (if decide (form isKey tag text = .plain) then Tag.ofPlain (readText isKey n tag text) else .str) = tag := by
  by_cases hform : form isKey tag text = .plain
  · simpa [readText, hform] using (form_eq_plain hform).1
  · have hstr : tag = .str := h.resolve_right fun hplain => hform hplain.1
    simp [hstr ▸ hform, hstr]

theorem isComposed_scalar {tag : Tag} {text : String} (h : IsUntagged isKey tag text) :
    IsComposed isKey keyed m (scalar tag text) := by
  intro r fuel rest indentless _ hfuel
  obtain ⟨f, rfl⟩ := Nat.exists_eq_add_of_le' (Nat.le_of_add_left_le hfuel)
  rw [readNode_scalar rfl, tag_of_isUntagged h]
  rfl

theorem readNode_mappingTokens {es : List (Node × Node)} (hkeys : ∀ e ∈ es, ∃ s, e.1 = scalar .str s)
    (hvalues : ∀ e ∈ es, IsComposed false e.1.isSimpleKey n e.2) (r : NodeReader) (rest : List Token)
    (hfuel : 4 * (mappingTokens n es).length + 2 ≤ fuel) :
    readNode true indentless fuel { r with tokens := mappingTokens n es ++ rest } =
      .ok (mapping .map (entriesReadBack n es), { r with tokens := rest }) := by
  rw [mappingTokens] at hfuel ⊢
  by_cases hempty : es.isEmpty = true
  · obtain rfl := List.isEmpty_iff.mp hempty
    obtain ⟨f, rfl⟩ := Nat.exists_eq_add_of_le' (Nat.le_of_add_left_le hfuel)
    exact readNode_emptyMapping rfl
  · rw [if_neg hempty, List.length_cons, List.length_append, List.length_singleton] at hfuel
    obtain ⟨f, rfl⟩ : ∃ f, fuel = f + 1 := ⟨fuel - 1, by omega⟩
    have hkeysComposed : ∀ e ∈ es, IsComposed e.1.isSimpleKey false n e.1 := by
      intro e he
      obtain ⟨s, hs⟩ := hkeys e he
      rw [hs]
      exact isComposed_scalar (.inl rfl)
    have hentries := readBlockEntries_tokens r rest hkeysComposed hvalues (by omega : _ ≤ f)
    rw [if_neg hempty, List.cons_append, List.append_assoc]
    exact readNode_blockMapping rfl hentries

/-- A node that is written without tags is read from its tokens. -/
theorem IsBare.isComposed (h : x.IsBare) : ∀ keyed m, IsComposed false keyed m x := by
  induction h with
  | scalar t text htext => exact fun keyed m => isComposed_scalar htext
  | sequence items hitems ih =>
    intro keyed m r fuel rest indentless hrest hfuel
    rw [tokens] at hfuel ⊢
    rw [readBack]
    by_cases hempty : items.isEmpty = true
    · obtain rfl := List.isEmpty_iff.mp hempty
      obtain ⟨f, rfl⟩ := Nat.exists_eq_add_of_le' (Nat.le_of_add_left_le hfuel)
      exact readNode_emptySequence rfl
    · rw [if_neg hempty] at hfuel ⊢
      cases keyed with
      | true =>
        obtain ⟨rfl, t, ts, rfl, ht⟩ := hrest rfl
        obtain ⟨x, xs, rfl⟩ := List.exists_cons_of_ne_nil fun he => hempty (List.isEmpty_iff.mpr he)
        rw [if_pos rfl] at hfuel ⊢
        obtain ⟨f, rfl⟩ : ∃ f, fuel = f + 1 := ⟨fuel - 1, by omega⟩
        have hitems := readIndentlessItems_tokens r ts (fun x hx => ih x hx false m) ht (by omega : _ ≤ f)
        exact readNode_indentless rfl hitems
      | false =>
        rw [if_neg Bool.false_ne_true, List.length_cons, List.length_append, List.length_singleton] at hfuel
        obtain ⟨f, rfl⟩ : ∃ f, fuel = f + 1 := ⟨fuel - 1, by omega⟩
        have hitems := readBlockItems_tokens r rest (fun x hx => ih x hx false (m + 2)) (by omega : _ ≤ f)
        rw [if_neg Bool.false_ne_true, List.cons_append, List.append_assoc]
        exact readNode_blockSequence rfl hitems
  | mapping es hkeys hvalues ih =>
    intro keyed m r fuel rest indentless _ hfuel
    exact readNode_mappingTokens hkeys (fun e he => ih e he e.1.isSimpleKey (m + 2)) r rest hfuel

/-- A document that is one mapping. -/
theorem ofTokens_mappingTokens {es : List (Node × Node)} (h : (mapping .map es).IsBare) :
    ofTokens ⟨mappingTokens 0 es ++ [.streamEnd], none⟩ = .ok (some (mapping .map (entriesReadBack 0 es))) := by
  obtain ⟨t, ts, htokens, hopens⟩ : ∃ t ts, mappingTokens 0 es = t :: ts ∧ t.Opens := by
    rw [mappingTokens]
    split
    · exact ⟨_, _, rfl, .flowMapping⟩
    · exact ⟨_, _, rfl, .blockMapping⟩
  have hroot : (ofStream ⟨mappingTokens 0 es ++ [.streamEnd], none⟩).root =
      .ok (mapping .map (entriesReadBack 0 es), ⟨[.streamEnd], none, standardHandles, [], false⟩) := by
    cases h with
    | mapping _ hkeys hvalues =>
      refine readNode_mappingTokens hkeys (fun e he => (hvalues e he).isComposed e.1.isSimpleKey 0)
        ⟨[], none, standardHandles, [], false⟩ [.streamEnd] ?_
      rw [ofStream, List.length_append]
      omega
  have hdocument : (ofStream ⟨mappingTokens 0 es ++ [.streamEnd], none⟩).document =
      .ok (some (mapping .map (entriesReadBack 0 es)), ⟨[.streamEnd], none, standardHandles, [], false⟩) := by
    have hfirst : (ofStream ⟨mappingTokens 0 es ++ [.streamEnd], none⟩).tokens =
        t :: (ts ++ [.streamEnd]) := by rw [ofStream, htokens, List.cons_append]
    rw [document, peek_eq hfirst]
    cases hopens <;>
    · change (NodeReader.root _ >>= _) = _
      rw [hroot]
      rfl
  rw [ofTokens, hdocument]
  rfl

end Node
end TopologyConfig.Yaml
