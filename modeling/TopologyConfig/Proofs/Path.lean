import TopologyConfig.Path
import TopologyConfig.Proofs.Text.Blank

/-!
Paths and their texts. The text of a path that was read is read as the same path, so that a document has one format
however its path was written.
-/
namespace TopologyConfig

namespace Path

/-- The parts of a path are neither empty nor the present directory, and have no separator. -/
def IsPart (part : String) : Prop := part ≠ "" ∧ part ≠ "." ∧ '/' ∉ part.toList

theorem isPart_of_mem_ofText {s part : String} (h : part ∈ (ofText s).parts) : IsPart part := by
  obtain ⟨hmem, hkept⟩ := List.mem_filter.mp h
  obtain ⟨piece, hpiece, rfl⟩ := List.mem_map.mp hmem
  obtain ⟨hempty, hdot⟩ : String.ofList piece ≠ "" ∧ String.ofList piece ≠ "." := by simpa using hkept
  exact ⟨hempty, hdot, by simpa using Text.not_mem_of_mem_splitAt hpiece⟩

theorem rootOf_mem (cs : List Char) : rootOf cs ∈ ["", "//", "/"] := by
  unfold rootOf
  split <;> simp

variable {parts : List String}

/-- The pieces of the text of some parts that count are the parts. -/
theorem filter_splitAt_intercalate (h : ∀ part ∈ parts, IsPart part) :
    ((Text.splitAt '/' ("/".intercalate parts).toList).map String.ofList).filter (fun p => p != "" && p != ".") =
      parts := by
  cases parts with
  | nil => rfl
  | cons part parts =>
    have hpieces : ∀ p ∈ part.toList :: parts.map String.toList, '/' ∉ p := by
      rw [← List.map_cons]
      intro p hp
      obtain ⟨q, hq, rfl⟩ := List.mem_map.mp hp
      exact (h q hq).2.2
    have hkept : ∀ p ∈ part :: parts, (p != "" && p != ".") = true := by
      intro p hp
      simp [(h p hp).1, (h p hp).2.1]
    have hslash : "/".toList = ['/'] := rfl
    rw [String.toList_intercalate, hslash, List.map_cons, Text.splitAt_intercalate hpieces, ← List.map_cons,
      List.map_map]
    simpa [Function.comp_def] using hkept

/-- What stands before the first part is separators and nothing else. -/
theorem ofText_append {root : String} (hroot : root ∈ ["", "//", "/"]) {rest : String}
    (hrest : rest.toList.head? ≠ some '/') :
    ofText (root ++ rest) = ⟨root, ((Text.splitAt '/' rest.toList).map String.ofList).filter
      (fun p => p != "" && p != ".")⟩ := by
  have htake : rest.toList.takeWhile (· == '/') = [] := by
    cases hcs : rest.toList with
    | nil => rfl
    | cons c cs =>
      have hc : (c == '/') = false := by simpa [hcs] using hrest
      rw [List.takeWhile_cons, hc]
      rfl
  simp only [List.mem_cons, List.not_mem_nil, or_false] at hroot
  rcases hroot with rfl | rfl | rfl <;> simp [ofText, rootOf, htake, Text.splitAt]

theorem head?_intercalate (h : ∀ part ∈ parts, IsPart part) : ("/".intercalate parts).toList.head? ≠ some '/' := by
  cases parts with
  | nil => simp
  | cons part parts =>
    obtain ⟨hempty, -, hslash⟩ := h part List.mem_cons_self
    obtain ⟨c, cs, hcs⟩ := List.exists_cons_of_ne_nil (mt String.toList_eq_nil_iff.mp hempty)
    have hc : c ≠ '/' := fun he => hslash (by rw [hcs, he]; exact List.mem_cons_self)
    cases parts with
    | nil => simpa [hcs] using hc
    | cons next parts => simpa [hcs] using hc

/-- The text of a path that was read is read as the path. -/
theorem ofText_text (s : String) : ofText (ofText s).text = ofText s := by
  have hparts : ∀ part ∈ (ofText s).parts, IsPart part := fun part => isPart_of_mem_ofText
  have hroot : (ofText s).root ∈ ["", "//", "/"] := rootOf_mem _
  generalize ofText s = p at hparts hroot
  obtain ⟨root, parts⟩ := p
  unfold text
  split
  · next hempty =>
    obtain ⟨rfl, rfl⟩ : root = "" ∧ parts = [] := by simpa using hempty
    rfl
  · exact (ofText_append hroot (head?_intercalate hparts)).trans (by rw [filter_splitAt_intercalate hparts])

/-- A path into a directory has the name that stands after it. -/
theorem name_ofText_append (directory : String) {name : String} (h : IsPart name) :
    (ofText (directory ++ "/" ++ name)).name = name := by
  obtain ⟨hempty, hdot, hslash⟩ := h
  have hpieces : Text.splitAt '/' (directory ++ "/" ++ name).toList =
      Text.splitAt '/' directory.toList ++ [name.toList] := by
    rw [String.toList_append, String.toList_append, List.append_assoc, ← Text.splitAt_of_not_mem hslash]
    exact Text.splitAt_append '/' directory.toList name.toList
  have hparts : (ofText (directory ++ "/" ++ name)).parts = (ofText directory).parts ++ [name] := by
    rw [ofText, hpieces]
    simp [ofText, hempty, hdot]
  rw [Path.name, hparts, List.getLastD_concat]

theorem parts_eq_concat {p : Path} (h : p.parts ≠ []) : p.parts = p.parent.parts ++ [p.name] := by
  obtain ⟨first, last, hparts⟩ : ∃ first last, p.parts = first ++ [last] :=
    ⟨_, _, (List.dropLast_concat_getLast h).symm⟩
  simp [parent, name, hparts]

theorem exists_intercalate_concat (parts : List String) (name : String) :
    ∃ rest, "/".intercalate (parts ++ [name]) = "/".intercalate parts ++ rest := by
  induction parts with
  | nil => exact ⟨name, by simp⟩
  | cons part parts ih =>
    obtain ⟨rest, hrest⟩ := ih
    cases parts with
    | nil => exact ⟨"/" ++ name, by simp [String.append_assoc]⟩
    | cons next parts =>
      rw [List.cons_append] at hrest
      refine ⟨rest, ?_⟩
      rw [List.cons_append, List.cons_append, String.intercalate_cons_cons, hrest, String.intercalate_cons_cons]
      simp [String.append_assoc]

/-- The text of a path goes on from the one of its parent, unless that is the present directory. -/
theorem text_parent (p : Path) : p.parent.text = "." ∨ ∃ rest, p.text = p.parent.text ++ rest := by
  by_cases hparts : p.parts = []
  · have hparent : p.parent = p := by
      rw [parent, hparts, List.dropLast_nil, ← hparts]
    exact .inr ⟨"", by simp [hparent]⟩
  · obtain ⟨rest, hrest⟩ := exists_intercalate_concat p.parent.parts p.name
    have htext : p.text = p.root ++ "/".intercalate p.parts := by simp [text, hparts]
    by_cases hempty : (p.parent.root.isEmpty && p.parent.parts.isEmpty) = true
    · exact .inl (by rw [text, if_pos hempty])
    · refine .inr ⟨rest, ?_⟩
      have hroot : p.parent.root = p.root := rfl
      rw [htext, parts_eq_concat hparts, hrest, text, if_neg hempty, hroot, String.append_assoc]

end Path
end TopologyConfig
