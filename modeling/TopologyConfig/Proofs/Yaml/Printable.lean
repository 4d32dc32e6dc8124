import TopologyConfig.Proofs.Yaml.Written

/-!
A document holds printable characters only: all others are escaped when a text is written.
-/
namespace TopologyConfig.Yaml

open TextForms (isSpecial isWrittenBreak)

theorem isPrintable_of_not_special {x : Char} (h : isSpecial x = false) : isPrintable x = true := by
  simp only [isSpecial, Bool.or_eq_false_iff, Bool.not_eq_false', Bool.or_eq_true, Bool.and_eq_true, decide_eq_true_eq,
    beq_iff_eq] at h
  obtain ⟨h, -⟩ := h
  simp only [isPrintable, Bool.or_eq_true, Bool.and_eq_true, decide_eq_true_eq, beq_iff_eq]
  rcases h with ((((rfl | h) | h) | h) | h) | h
  · decide
  all_goals omega

theorem isPrintable_of_isVisible {x : Char} (h : Sheet.IsVisible x) : isPrintable x = true := by
  obtain ⟨hlow, hhigh⟩ := h
  simp only [isPrintable, Bool.or_eq_true, Bool.and_eq_true, decide_eq_true_eq, beq_iff_eq]
  omega

theorem isPrintable_of_not_isEscaped {x : Char} (h : Sheet.isEscaped x = false) : isPrintable x = true := by
  simp only [Sheet.isEscaped, Bool.or_eq_false_iff, Bool.not_eq_false', Bool.or_eq_true, Bool.and_eq_true,
    decide_eq_true_eq] at h
  simp only [isPrintable, Bool.or_eq_true, Bool.and_eq_true, decide_eq_true_eq, beq_iff_eq]
  omega

namespace Sheet

variable {s : Sheet} {cs : List Char} {n : Nat}

/-- All that is written so far is printable. -/
def IsPrinted (s : Sheet) : Prop := ∀ x ∈ s.reversed, isPrintable x = true

theorem IsPrinted.put (h : s.IsPrinted) (hcs : ∀ x ∈ cs, isPrintable x = true) : (s.put cs).IsPrinted := by
  refine List.forall_mem_append.mpr ⟨?_, h⟩
  simpa using hcs

theorem IsPrinted.breakLine (h : s.IsPrinted) {c : Char} (hc : isPrintable c = true) : (s.breakLine c).IsPrinted :=
  List.forall_mem_cons.mpr ⟨hc, h⟩

theorem IsPrinted.indent (h : s.IsPrinted) (n : Nat) : (s.indent n).IsPrinted := by
  have hspaces : ∀ k, ∀ x ∈ List.replicate k ' ', isPrintable x = true := by
    intro k x hx
    rw [List.eq_of_mem_replicate hx]
    rfl
  have hline : ∀ s : Sheet, s.IsPrinted →
      (if s.column < n then { s.put (List.replicate (n - s.column) ' ') with spaced := true } else s).IsPrinted := by
    intro s hs
    split
    · exact hs.put (hspaces _)
    · exact hs
  rw [Sheet.indent]
  refine hline _ ?_
  split
  · exact h.breakLine rfl
  · exact h

theorem IsPrinted.mark (h : s.IsPrinted) (hcs : ∀ x ∈ cs, isPrintable x = true) : (s.mark cs).IsPrinted := h.put hcs

theorem IsPrinted.word (h : s.IsPrinted) (hcs : ∀ x ∈ cs, isPrintable x = true) : (s.word cs).IsPrinted := by
  refine h.mark ?_
  split
  · exact hcs
  · exact List.forall_mem_cons.mpr ⟨rfl, hcs⟩

theorem IsPrinted.indentWord (h : s.IsPrinted) (hcs : ∀ x ∈ cs, isPrintable x = true) : (s.indentWord cs).IsPrinted :=
  h.word hcs

theorem IsPrinted.wrap (h : s.IsPrinted) (n : Nat) : (s.wrap n).IsPrinted := h.indent n

theorem IsPrinted.plainRuns (split : Bool) {rs : List (List Char)} (hrs : ∀ run ∈ rs, ∀ x ∈ run, isPrintable x = true)
    (h : s.IsPrinted) : (plainRuns split n rs s).IsPrinted := by
  induction rs generalizing s with
  | nil => exact h
  | cons run rs ih =>
    obtain ⟨hrun, hrs⟩ := List.forall_mem_cons.mp hrs
    rw [Sheet.plainRuns]
    split
    · exact ih hrs (h.wrap n)
    · exact ih hrs (h.put hrun)

theorem IsPrinted.breaks (h : s.IsPrinted) {run : List Char} (hrun : ∀ x ∈ run, isPrintable x = true) :
    (s.breaks n run).IsPrinted := by
  have hfold : ∀ s : Sheet, s.IsPrinted → (run.foldl Sheet.breakLine s).IsPrinted := by
    induction run with
    | nil => exact fun s hs => hs
    | cons b run ih =>
      obtain ⟨hb, hrun⟩ := List.forall_mem_cons.mp hrun
      exact fun s hs => ih hrun _ (hs.breakLine hb)
  rw [Sheet.breaks]
  refine (hfold _ ?_).indent n
  split
  · exact h.breakLine rfl
  · exact h

theorem IsPrinted.singleRuns (split first : Bool) {rs : List (List Char)}
    (hrs : ∀ run ∈ rs, ∀ x ∈ run, isPrintable x = true) (h : s.IsPrinted) :
    (singleRuns split n first rs s).IsPrinted := by
  induction rs generalizing s first with
  | nil => exact h
  | cons run rs ih =>
    obtain ⟨hrun, hrs⟩ := List.forall_mem_cons.mp hrs
    have hdoubled : ∀ x ∈ run.flatMap doubled, isPrintable x = true := by
      intro x hx
      obtain ⟨c, hc, hx⟩ := List.mem_flatMap.mp hx
      unfold doubled at hx
      split at hx
      · have hquote : x = '\'' := by simpa using hx
        rw [hquote]
        rfl
      · exact List.mem_singleton.mp hx ▸ hrun c hc
    rw [Sheet.singleRuns]
    refine ih false hrs ?_
    split
    · exact h.breaks hrun
    · split
      · split
        · exact h.indent n
        · exact h.put hrun
      · exact h.put hdoubled

theorem IsPrinted.doubleChars (split : Bool) (cs : List Char) (first : Bool) {held : List Char}
    (hheld : ∀ x ∈ held, isPrintable x = true) (h : s.IsPrinted) : (doubleChars split n first held cs s).IsPrinted := by
  induction cs generalizing s first held with
  | nil => exact h.put (by simpa using hheld)
  | cons c cs ih =>
    have hslash : ∀ x ∈ ['\\'], isPrintable x = true := List.all_eq_true.mp rfl
    have hnone : ∀ x ∈ ([] : List Char), isPrintable x = true := by simp
    -- A wrapped line ends with a backslash, and another one may stand in front of a space.
    have hwrap : ∀ (s : Sheet) (ds : List Char) (following : Option Char), s.IsPrinted → (∀ x ∈ ds, isPrintable x = true) →
        (if following == some ' ' then ((s.put (ds ++ ['\\'])).wrap n).put ['\\']
          else (s.put (ds ++ ['\\'])).wrap n).IsPrinted := by
      intro s ds following hs hds
      have hline := (hs.put (List.forall_mem_append.mpr ⟨hds, hslash⟩)).wrap n
      split
      · exact hline.put hslash
      · exact hline
    rw [Sheet.doubleChars]
    by_cases hescape : isEscaped c = true
    · have hescaped : ((s.put held.reverse).put (escaped c)).IsPrinted :=
        (h.put (by simpa using hheld)).put fun x hx => isPrintable_of_isVisible (isVisible_escaped c x hx)
      simp only [hescape, if_true]
      split
      · exact ih false hnone (hwrap _ _ _ hescaped (by simp))
      · exact ih false hnone hescaped
    · have hc := isPrintable_of_not_isEscaped (Bool.eq_false_of_not_eq_true hescape)
      simp only [hescape, Bool.false_eq_true, if_false]
      split
      · exact ih false (by simpa using hc) (hwrap _ _ _ h (by simpa using hheld))
      · exact ih false (List.forall_mem_cons.mpr ⟨hc, hheld⟩) h

end Sheet

namespace Node

variable {s : Sheet} {t : Tag} {text : String} {isKey : Bool} {n : Nat} {x : Node}

theorem isPrintable_runs {cs : List Char} (h : ∀ x ∈ cs, isSpecial x = false) :
    ∀ run ∈ runs spaceClass cs, ∀ x ∈ run, isPrintable x = true := by
  intro run hrun x hx
  refine isPrintable_of_not_special (h x ?_)
  rw [← (runsOf_runs spaceClass cs).flatten]
  exact List.mem_flatten.mpr ⟨run, hrun, hx⟩

theorem isPrinted_writeScalar (htext : IsUntagged isKey t text) (hs : s.IsPrinted) :
    (writeScalar isKey n t text s).IsPrinted := by
  have hquotes : ∀ q ∈ ['\'', '"'], isPrintable q = true := List.all_eq_true.mp rfl
  have hquote : ∀ q ∈ ['\'', '"'], ∀ x ∈ [q], isPrintable x = true := fun q hq =>
    List.forall_mem_singleton.mpr (hquotes q hq)
  have hstr : form isKey t text ≠ .plain → t = .str := fun hform => htext.resolve_right fun h => hform h.1
  cases hform : form isKey t text with
  | plain =>
    have hne : text ≠ "" := htext.elim (fun h => ne_empty_of_form (h ▸ hform)) fun h => h.2
    have hlead : (if s.spaced then s else s.put [' ']).IsPrinted := by
      split
      · exact hs
      · exact hs.put (List.all_eq_true.mp rfl)
    rw [writeScalar_plain hform]
    exact Sheet.IsPrinted.plainRuns _ (isPrintable_runs (isPlain_of_form hform hne).plainChars) hlead
  | single =>
    obtain rfl := hstr (by simp [hform])
    have hchars := (TextForms.isSingle_of_singleQuoted (form_eq_single hform)).plainChars
    rw [writeScalar_single hform]
    exact ((hs.word (hquote '\'' (by simp))).singleRuns _ _ (isPrintable_runs hchars)).mark (hquote '\'' (by simp))
  | double =>
    obtain rfl := hstr (by simp [hform])
    rw [writeScalar_double hform]
    exact ((hs.word (hquote '"' (by simp))).doubleChars _ _ _ (by simp)).mark (hquote '"' (by simp))
  | block =>
    obtain rfl := hstr (by simp [hform])
    exact absurd hform (form_ne_block (by simp))

/-- The node is written in printable characters. -/
def WritesPrintable (x : Node) : Prop :=
  ∀ (outer : Option Nat) (inMapping : Bool) (s : Sheet), s.IsPrinted → (write outer inMapping false x s).IsPrinted

theorem isPrinted_writeItems {items : List Node} (h : ∀ x ∈ items, WritesPrintable x) (hs : s.IsPrinted) :
    (writeItems n items s).IsPrinted := by
  induction items generalizing s with
  | nil => exact hs
  | cons x xs ih =>
    obtain ⟨hx, hxs⟩ := List.forall_mem_cons.mp h
    exact ih hxs (hx _ false _ ((hs.indent n).indentWord (List.all_eq_true.mp rfl)))

theorem isPrinted_writeEntries {es : List (Node × Node)} (hkeys : ∀ e ∈ es, ∃ s, e.1 = scalar .str s)
    (hvalues : ∀ e ∈ es, WritesPrintable e.2) (hs : s.IsPrinted) : (writeEntries n es s).IsPrinted := by
  induction es generalizing s with
  | nil => exact hs
  | cons e es ih =>
    obtain ⟨k, v⟩ := e
    obtain ⟨⟨text, hk⟩, hkeys'⟩ := List.forall_mem_cons.mp hkeys
    obtain ⟨hv, hvalues'⟩ := List.forall_mem_cons.mp hvalues
    dsimp only at hk
    subst hk
    rw [writeEntries]
    refine ih hkeys' hvalues' (hv _ true _ ?_)
    split
    · exact (isPrinted_writeScalar (.inl rfl) (hs.indent n)).mark (List.all_eq_true.mp rfl)
    · have hkey : (write (some n) true false (scalar .str text) ((s.indent n).indentWord ['?'])).IsPrinted :=
        isPrinted_writeScalar (.inl rfl) ((hs.indent n).indentWord (List.all_eq_true.mp rfl))
      exact (hkey.indent n).indentWord (List.all_eq_true.mp rfl)

theorem IsBare.writesPrintable (h : x.IsBare) : WritesPrintable x := by
  induction h with
  | scalar t text htext => exact fun outer inMapping s hs => isPrinted_writeScalar htext hs
  | sequence items hitems ih =>
    intro outer inMapping s hs
    rw [write]
    split
    · exact (hs.word (List.all_eq_true.mp rfl)).mark (List.all_eq_true.mp rfl)
    · split
      · exact isPrinted_writeItems ih hs
      · exact isPrinted_writeItems ih hs
  | mapping es hkeys hvalues ih =>
    intro outer inMapping s hs
    rw [write, if_pos rfl]
    split
    · exact (hs.word (List.all_eq_true.mp rfl)).mark (List.all_eq_true.mp rfl)
    · exact isPrinted_writeEntries hkeys ih hs

theorem isPrintable_documentText {es : List (Node × Node)} (h : (mapping .map es).IsBare) :
    ∀ x ∈ documentText es, isPrintable x = true := by
  intro x hx
  have hempty : Sheet.IsPrinted {} := fun x hx => nomatch hx
  have hall := (h.writesPrintable none false {} hempty).indent 0
  rw [documentText, Sheet.text, String.toList_ofList, List.mem_reverse] at hx
  exact hall x hx

end Node
end TopologyConfig.Yaml
