import TopologyConfig.Text.Blank
import Mathlib.Data.List.DropRight

/-!
Trimming a text, and taking it apart at a separator. Trimming takes off the blanks at the two ends and nothing else.
Pieces that are put together with separators between them are found again, and the pieces that are found give the text
when they are put together.
-/
namespace TopologyConfig.Text

section

variable {cs before after : List Char} {s : String}

/-- The text neither begins nor ends with a blank. -/
def IsTrim (cs : List Char) : Prop :=
  (∀ c ∈ cs.head?, isBlank c = false) ∧ ∀ c ∈ cs.getLast?, isBlank c = false

theorem isTrim_of_forall (h : ∀ c ∈ cs, isBlank c = false) : IsTrim cs :=
  ⟨fun c hc => h c (List.mem_of_mem_head? hc), fun c hc => h c (List.mem_of_getLast? hc)⟩

theorem trim_eq_nil_iff : trim cs = [] ↔ ∀ c ∈ cs, isBlank c = true := by
  rw [trim, List.reverse_eq_nil_iff, List.dropWhile_eq_nil_iff]
  refine ⟨fun h c hc => ?_, fun h c hc => h c ((List.dropWhile_sublist _).mem (List.mem_reverse.mp hc))⟩
  rw [← List.takeWhile_append_dropWhile (p := isBlank) (l := cs), List.mem_append] at hc
  exact hc.elim List.mem_takeWhile_imp fun hc => h c (List.mem_reverse.mpr hc)

theorem IsTrim.trim_eq (h : IsTrim cs) : trim cs = cs := by
  have hfirst : cs.dropWhile isBlank = cs := by
    cases cs with
    | nil => rfl
    | cons c cs => rw [List.dropWhile_cons_of_neg (by simp [h.1 c rfl])]
  rw [trim, hfirst]
  refine List.rdropWhile_eq_self_iff.mpr fun hne => ?_
  simp [h.2 _ (List.getLast?_eq_some_getLast hne)]

theorem isBlank_head_dropWhile {c : Char} (h : c ∈ (cs.dropWhile isBlank).head?) : isBlank c = false := by
  have hnot := List.head?_dropWhile_not isBlank cs
  rwa [Option.mem_def.mp h] at hnot

theorem isTrim_trim (cs : List Char) : IsTrim (trim cs) := by
  refine ⟨fun c hc => ?_, fun c hc => ?_⟩
  · obtain ⟨ds, hds⟩ : trim cs <+: cs.dropWhile isBlank := List.rdropWhile_prefix _ _
    have hfirst : (cs.dropWhile isBlank).head? = some c := by
      rw [← hds, List.head?_append, hc, Option.some_or]
    exact isBlank_head_dropWhile hfirst
  · rw [trim, List.getLast?_reverse] at hc
    exact isBlank_head_dropWhile hc

/-- Blanks around a text make no difference. -/
theorem trim_append (hbefore : ∀ c ∈ before, isBlank c = true) (hafter : ∀ c ∈ after, isBlank c = true) :
    trim (before ++ cs ++ after) = trim cs := by
  have hlast (ds : List Char) : (ds ++ after).reverse.dropWhile isBlank = ds.reverse.dropWhile isBlank := by
    rw [List.reverse_append, List.dropWhile_append_of_pos fun c hc => hafter c (List.mem_reverse.mp hc)]
  rw [trim, trim, List.append_assoc, List.dropWhile_append_of_pos hbefore, List.dropWhile_append]
  -- in a blank text the front runs on into what stands after it, and nothing is left of either
  split
  · next hnone =>
    rw [List.isEmpty_iff.mp hnone, List.dropWhile_eq_nil_iff.mpr hafter]
  · rw [hlast]

/-- A text is what is left of it with blanks around. -/
theorem exists_append_trim (cs : List Char) : ∃ before after,
    (∀ c ∈ before, isBlank c = true) ∧ (∀ c ∈ after, isBlank c = true) ∧ before ++ trim cs ++ after = cs := by
  refine ⟨cs.takeWhile isBlank, (cs.dropWhile isBlank).rtakeWhile isBlank, fun c => List.mem_takeWhile_imp,
    fun c => List.mem_rtakeWhile_imp, ?_⟩
  have hlast : trim cs ++ (cs.dropWhile isBlank).rtakeWhile isBlank = cs.dropWhile isBlank :=
    List.rdropWhile_append_rtakeWhile
  rw [List.append_assoc, hlast, List.takeWhile_append_dropWhile]

theorem hasInk_iff : hasInk s = true ↔ ∃ c ∈ s.toList, isBlank c = false := by
  simp [hasInk]

theorem hasInk_eq_false_iff : hasInk s = false ↔ ∀ c ∈ s.toList, isBlank c = true := by
  simp [hasInk]

theorem trimmed_eq_empty_iff : trimmed s = "" ↔ hasInk s = false := by
  rw [hasInk_eq_false_iff, ← trim_eq_nil_iff, trimmed, String.ofList_eq_empty_iff]

theorem trimmed_append {left right : String} (hleft : hasInk left = false) (hright : hasInk right = false) :
    trimmed (left ++ s ++ right) = trimmed s := by
  rw [trimmed, String.toList_append, String.toList_append,
    trim_append (hasInk_eq_false_iff.mp hleft) (hasInk_eq_false_iff.mp hright), trimmed]

theorem exists_append_trimmed (s : String) :
    ∃ left right, hasInk left = false ∧ hasInk right = false ∧ left ++ trimmed s ++ right = s := by
  obtain ⟨before, after, hbefore, hafter, hs⟩ := exists_append_trim s.toList
  refine ⟨String.ofList before, String.ofList after, ?_, ?_, ?_⟩
  · rwa [hasInk_eq_false_iff, String.toList_ofList]
  · rwa [hasInk_eq_false_iff, String.toList_ofList]
  · rw [trimmed, ← String.ofList_append, ← String.ofList_append, hs, String.ofList_toList]

theorem subset_of_trimmed (s : String) : (trimmed s).toList ⊆ s.toList := by
  obtain ⟨left, right, -, -, hs⟩ := exists_append_trimmed s
  intro c hc
  rw [← hs, String.toList_append, String.toList_append]
  exact List.mem_append_left _ (List.mem_append_right _ hc)

theorem isTrim_trimmed (s : String) : IsTrim (trimmed s).toList := by
  rw [trimmed, String.toList_ofList]
  exact isTrim_trim s.toList

theorem IsTrim.trimmed_eq (h : IsTrim s.toList) : trimmed s = s := by
  rw [trimmed, h.trim_eq, String.ofList_toList]

end

section

variable {separator : Char} {cs : List Char}

theorem splitAt_ne_nil (separator : Char) (cs : List Char) : splitAt separator cs ≠ [] := by
  cases cs with
  | nil => exact List.cons_ne_nil _ _
  | cons c cs =>
    rw [splitAt]
    split
    · exact List.cons_ne_nil _ _
    · split <;> exact List.cons_ne_nil _ _

/-- No piece has a separator. -/
theorem not_mem_of_mem_splitAt {piece : List Char} (h : piece ∈ splitAt separator cs) : separator ∉ piece := by
  induction cs generalizing piece with
  | nil =>
    obtain rfl : piece = [] := List.mem_singleton.mp h
    exact List.not_mem_nil
  | cons c cs ih =>
    rw [splitAt] at h
    split at h
    · rcases List.mem_cons.mp h with rfl | h
      · exact List.not_mem_nil
      · exact ih h
    · next hc =>
      split at h
      · next hnil => exact absurd hnil (splitAt_ne_nil separator cs)
      · next first pieces hfirst =>
        rcases List.mem_cons.mp h with rfl | h
        · refine List.not_mem_cons_of_ne_of_not_mem (Ne.symm hc) (ih ?_)
          rw [hfirst]
          exact List.mem_cons_self
        · exact ih (by rw [hfirst]; exact List.mem_cons_of_mem _ h)

theorem splitAt_of_not_mem (h : separator ∉ cs) : splitAt separator cs = [cs] := by
  induction cs with
  | nil => rfl
  | cons c cs ih =>
    obtain ⟨hc, hcs⟩ := not_or.mp (mt List.mem_cons.mpr h)
    rw [splitAt, if_neg (Ne.symm hc), ih hcs]

theorem splitAt_append_separator (h : separator ∉ cs) (rest : List Char) :
    splitAt separator (cs ++ separator :: rest) = cs :: splitAt separator rest := by
  induction cs with
  | nil => rw [List.nil_append, splitAt, if_pos rfl]
  | cons c cs ih =>
    obtain ⟨hc, hcs⟩ := not_or.mp (mt List.mem_cons.mpr h)
    rw [List.cons_append, splitAt, if_neg (Ne.symm hc), ih hcs]

/-- The pieces of two texts with a separator between them are the pieces of both. -/
theorem splitAt_append (separator : Char) (cs rest : List Char) :
    splitAt separator (cs ++ separator :: rest) = splitAt separator cs ++ splitAt separator rest := by
  induction cs with
  | nil => simp [splitAt]
  | cons c cs ih =>
    rw [List.cons_append, splitAt, splitAt, ih]
    split
    · rfl
    · cases hcs : splitAt separator cs with
      | nil => exact absurd hcs (splitAt_ne_nil separator cs)
      | cons piece pieces => rfl

/-- Pieces that are put together with separators between them are found again. -/
theorem splitAt_intercalate {piece : List Char} {pieces : List (List Char)}
    (h : ∀ p ∈ piece :: pieces, separator ∉ p) :
    splitAt separator ([separator].intercalate (piece :: pieces)) = piece :: pieces := by
  induction pieces generalizing piece with
  | nil =>
    rw [List.intercalate_singleton]
    exact splitAt_of_not_mem (h piece List.mem_cons_self)
  | cons next pieces ih =>
    obtain ⟨hfirst, hrest⟩ := List.forall_mem_cons.mp h
    rw [List.intercalate_cons_cons, List.append_assoc, List.singleton_append, splitAt_append_separator hfirst,
      ih hrest]

/-- The pieces of a text give it back. -/
theorem intercalate_splitAt (separator : Char) (cs : List Char) :
    [separator].intercalate (splitAt separator cs) = cs := by
  induction cs with
  | nil => rfl
  | cons c cs ih =>
    cases hpieces : splitAt separator cs with
    | nil => exact absurd hpieces (splitAt_ne_nil separator cs)
    | cons piece pieces =>
      rw [hpieces] at ih
      rw [splitAt, hpieces]
      split
      · next hc => rw [List.intercalate_cons_cons, ih, hc, List.nil_append, List.singleton_append]
      · cases pieces with
        | nil => simpa using ih
        | cons next pieces =>
          rw [List.intercalate_cons_cons] at ih ⊢
          rw [List.cons_append, List.cons_append, ih]

end

end TopologyConfig.Text
