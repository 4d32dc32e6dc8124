import TopologyConfig.Loader.Overrides
import TopologyConfig.Proofs.Number.Numeral
import TopologyConfig.Proofs.Text.Blank

/-!
Variables that stand for lists. A text spells some items if they stand in it in their order, between commas, with any
blanks around each and any number of blank pieces between them and at the ends. A text is read as some items exactly
when it spells them; so a list is read back however it was written, and whole numbers are read back from their decimal
numerals.
-/
namespace TopologyConfig.Override

variable {item text : String} {items pieces : List String} {n : Int} {ns : List Int}

/-- A text that can be an item: it is not empty, has no comma, and neither begins nor ends with a blank. -/
structure IsItem (item : String) : Prop where
  nonempty : item ≠ ""
  noComma : ',' ∉ item.toList
  isTrim : Text.IsTrim item.toList

/-- The pieces between the commas of a text that spells some items. -/
inductive Spells : List String → List String → Prop where
  | nil : Spells [] []
  | blank {gap : String} {pieces items : List String} :
    Text.hasInk gap = false → Spells pieces items → Spells (gap :: pieces) items
  | item {left item right : String} {pieces items : List String} :
    Text.hasInk left = false → Text.hasInk right = false → Spells pieces items →
      Spells ((left ++ item ++ right) :: pieces) (item :: items)

/-- What is left of some pieces when they are trimmed. -/
def itemsIn (pieces : List String) : List String := (pieces.map Text.trimmed).filter (· != "")

/-- Pieces without commas. -/
def WithoutCommas (pieces : List String) : Prop := ∀ piece ∈ pieces, ',' ∉ piece.toList

/-- The items that pieces spell are what is left of them. -/
theorem Spells.itemsIn_eq (h : Spells pieces items) (hitems : ∀ item ∈ items, IsItem item) :
    itemsIn pieces = items := by
  induction h with
  | nil => rfl
  | blank hgap _ ih =>
    rw [itemsIn, List.map_cons, Text.trimmed_eq_empty_iff.mpr hgap]
    exact ih hitems
  | item hleft hright _ ih =>
    obtain ⟨hitem, hrest⟩ := List.forall_mem_cons.mp hitems
    rw [itemsIn, List.map_cons, Text.trimmed_append hleft hright, hitem.isTrim.trimmed_eq,
      List.filter_cons_of_pos (by simp [hitem.nonempty])]
    exact congrArg _ (ih hrest)

/-- Any pieces spell what is left of them. -/
theorem spells_itemsIn (pieces : List String) : Spells pieces (itemsIn pieces) := by
  induction pieces with
  | nil => exact .nil
  | cons piece pieces ih =>
    rw [itemsIn, List.map_cons]
    by_cases hempty : Text.trimmed piece = ""
    · rw [hempty]
      exact .blank (Text.trimmed_eq_empty_iff.mp hempty) ih
    · obtain ⟨left, right, hleft, hright, hpiece⟩ := Text.exists_append_trimmed piece
      have hitem : Spells ((left ++ Text.trimmed piece ++ right) :: pieces) (Text.trimmed piece :: itemsIn pieces) :=
        .item hleft hright ih
      rw [hpiece] at hitem
      rwa [List.filter_cons_of_pos (by simp [hempty])]

theorem comma_not_mem_of_hasInk (h : Text.hasInk text = false) : ',' ∉ text.toList := fun hc =>
  absurd (Text.hasInk_eq_false_iff.mp h ',' hc) (by decide)

theorem Spells.withoutCommas (h : Spells pieces items) (hitems : ∀ item ∈ items, IsItem item) :
    WithoutCommas pieces := by
  induction h with
  | nil => exact List.forall_mem_nil _
  | blank hgap _ ih => exact List.forall_mem_cons.mpr ⟨comma_not_mem_of_hasInk hgap, ih hitems⟩
  | item hleft hright _ ih =>
    obtain ⟨hitem, hrest⟩ := List.forall_mem_cons.mp hitems
    refine List.forall_mem_cons.mpr ⟨?_, ih hrest⟩
    simp [comma_not_mem_of_hasInk hleft, comma_not_mem_of_hasInk hright, hitem.noComma]

theorem isItem_of_mem_itemsIn (h : WithoutCommas pieces) (hitem : item ∈ itemsIn pieces) : IsItem item := by
  obtain ⟨hmem, hne⟩ := List.mem_filter.mp hitem
  obtain ⟨piece, hpiece, rfl⟩ := List.mem_map.mp hmem
  exact ⟨bne_iff_ne.mp hne, fun hc => h piece hpiece (Text.subset_of_trimmed piece hc), Text.isTrim_trimmed piece⟩

theorem readTexts_eq (text : String) :
    readTexts text = itemsIn ((Text.splitAt ',' text.toList).map String.ofList) := by
  rw [readTexts, itemsIn]
  induction Text.splitAt ',' text.toList with
  | nil => rfl
  | cons piece pieces ih =>
    rw [List.filterMap_cons, ih, List.map_cons, List.map_cons, List.filter_cons, Text.trimmed, String.toList_ofList]
    cases Text.trim piece <;> simp

/-- A text is its pieces with commas between them. -/
theorem exists_intercalate (text : String) : ∃ pieces, WithoutCommas pieces ∧ ",".intercalate pieces = text := by
  refine ⟨(Text.splitAt ',' text.toList).map String.ofList, fun piece hpiece => ?_, ?_⟩
  · obtain ⟨cs, hcs, rfl⟩ := List.mem_map.mp hpiece
    rw [String.toList_ofList]
    exact Text.not_mem_of_mem_splitAt hcs
  · have hcomma : ",".toList = [','] := rfl
    refine String.toList_injective ?_
    rw [String.toList_intercalate, hcomma, List.map_map, String.toList_comp_ofList, List.map_id,
      Text.intercalate_splitAt]

/-- Of pieces with commas between them, what is left of each is read. -/
theorem readTexts_intercalate (h : WithoutCommas pieces) : readTexts (",".intercalate pieces) = itemsIn pieces := by
  cases pieces with
  | nil => rfl -- the empty text has one piece, but nothing is left of it
  | cons piece pieces =>
    have hcomma : ",".toList = [','] := rfl
    have hfree : ∀ cs ∈ (piece :: pieces).map String.toList, ',' ∉ cs := List.forall_mem_map.mpr h
    rw [readTexts_eq, String.toList_intercalate, hcomma, List.map_cons, Text.splitAt_intercalate hfree, ← List.map_cons,
      List.map_map]
    simp

/-- A text is read as some items exactly when they are items and the text spells them. -/
theorem readTexts_eq_iff : readTexts text = items ↔
    (∀ item ∈ items, IsItem item) ∧ ∃ pieces, Spells pieces items ∧ ",".intercalate pieces = text := by
  constructor
  · rintro rfl
    obtain ⟨pieces, hfree, rfl⟩ := exists_intercalate text
    rw [readTexts_intercalate hfree]
    exact ⟨fun item => isItem_of_mem_itemsIn hfree, pieces, spells_itemsIn pieces, rfl⟩
  · rintro ⟨hitems, pieces, hpieces, rfl⟩
    rw [readTexts_intercalate (hpieces.withoutCommas hitems), hpieces.itemsIn_eq hitems]

/-- A decimal numeral is an item. -/
theorem isItem_toString (n : Int) : IsItem (toString n) := by
  have hchars : ∀ c ∈ (toString n).toList, c ≠ ',' ∧ Text.isBlank c = false := by
    intro c hc
    rw [Numeral.toList_toString] at hc
    rcases List.mem_append.mp hc with hsign | hdigit
    · split at hsign
      · rw [List.mem_singleton.mp hsign]
        decide
      · exact absurd hsign List.not_mem_nil
    · have hdigit := Numeral.areDigits_toDigits n.natAbs c hdigit
      exact ⟨Numeral.ne_of_isDigit hdigit rfl, Numeral.isBlank_eq_false_of_isDigit hdigit⟩
  refine ⟨fun hempty => ?_, fun hc => (hchars ',' hc).1 rfl, Text.isTrim_of_forall fun c hc => (hchars c hc).2⟩
  have htext := Numeral.toList_toString n
  rw [hempty] at htext
  exact Nat.toDigits_ne_nil (List.append_eq_nil_iff.mp htext.symm).2

/-- Decimal numerals are read as their numbers. -/
theorem mapM_read_toString (hdigits : ∀ n ∈ ns, (Nat.toDigits 10 n.natAbs).length ≤ maxDigits) :
    (ns.map toString).mapM (fun item => (Numeral.read 10 item).mapError VariableFault.numeral) = .ok ns := by
  induction ns with
  | nil => rfl
  | cons n ns ih =>
    obtain ⟨hn, hns⟩ := List.forall_mem_cons.mp hdigits
    rw [List.map_cons, List.mapM_cons, Numeral.read_toString (Numeral.isWritable_iff.mpr hn), ih hns]
    rfl

/-- A list of texts is read back from any text that spells it, and only such lists are read; whole numbers are read back
from any text that spells their decimal numerals. -/
theorem lists_are_read_as_spelled :
    (∀ items pieces : List String, (∀ item ∈ items, IsItem item) → Spells pieces items →
      readTexts (",".intercalate pieces) = items) ∧
    (∀ text : String, ∀ item ∈ readTexts text, IsItem item) ∧
    ∀ (ns : List Int) (pieces : List String), (∀ n ∈ ns, (Nat.toDigits 10 n.natAbs).length ≤ maxDigits) →
      Spells pieces (ns.map toString) → readWholes (",".intercalate pieces) = .ok ns := by
  have hread (items pieces : List String) (hitems : ∀ item ∈ items, IsItem item) (hpieces : Spells pieces items) :
      readTexts (",".intercalate pieces) = items := readTexts_eq_iff.mpr ⟨hitems, pieces, hpieces, rfl⟩
  refine ⟨hread, fun text => (readTexts_eq_iff.mp rfl).1, fun ns pieces hdigits hpieces => ?_⟩
  have hnumerals : ∀ item ∈ ns.map toString, IsItem item := List.forall_mem_map.mpr fun n _ => isItem_toString n
  rw [readWholes, hread (ns.map toString) pieces hnumerals hpieces]
  exact mapM_read_toString hdigits

/-- Items with wide blanks and tabs beside them, and blank pieces at both ends and between. -/
theorem padded_lists_are_read :
    (∀ item ∈ ["zk1", "zk 2"], IsItem item) ∧
      Spells ["", "\u3000zk1", " ", "zk 2\t", "\x1c"] ["zk1", "zk 2"] ∧
      readTexts ",\u3000zk1, ,zk 2\t,\x1c" = ["zk1", "zk 2"] ∧
      ("zk 2" ∈ readTexts ",zk 2" ∧ IsItem "zk 2") ∧
      Spells ["\x1c-7", "", "0 "] (([-7, 0] : List Int).map toString) ∧
      readWholes "\x1c-7,,0 " = .ok [-7, 0] := by
  have hitems : ∀ item ∈ ["zk1", "zk 2"], IsItem item := by
    refine List.forall_mem_cons.mpr ⟨⟨by decide, by decide, Text.isTrim_trimmed "zk1"⟩, ?_⟩
    exact List.forall_mem_singleton.mpr ⟨by decide, by decide, Text.isTrim_trimmed "zk 2"⟩
  have htexts : Spells ["", "\u3000zk1", " ", "zk 2\t", "\x1c"] ["zk1", "zk 2"] := spells_itemsIn _
  have hwholes : Spells ["\x1c-7", "", "0 "] (([-7, 0] : List Int).map toString) := spells_itemsIn _
  obtain ⟨htexts', hitem, hwholes'⟩ := lists_are_read_as_spelled
  exact ⟨hitems, htexts, htexts' _ _ hitems htexts, ⟨by decide, hitem ",zk 2" "zk 2" (by decide)⟩, hwholes,
    hwholes' [-7, 0] _ (by decide) hwholes⟩

end TopologyConfig.Override
