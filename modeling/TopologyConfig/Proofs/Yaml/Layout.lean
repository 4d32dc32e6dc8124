import TopologyConfig.Proofs.Yaml.QuotedLines
import TopologyConfig.Yaml.Printer

/-!
The layout of scalars. Whatever lines the writer breaks a text into, they are lines that the text is read back from.
-/
namespace TopologyConfig.Yaml

/-- A text in its maximal runs of characters of one class. -/
inductive RunsOf (classOf : Char → Nat) : List Char → List (List Char) → Prop where
  | nil : RunsOf classOf [] []
  | cons (k : Nat) (run : List Char) {rest : List Char} {more : List (List Char)} (hne : run ≠ [])
    (hrun : ∀ x ∈ run, classOf x = k) (hnext : ∀ x ∈ rest.head?, classOf x ≠ k) (h : RunsOf classOf rest more) :
    RunsOf classOf (run ++ rest) (run :: more)

theorem runsOf_runs (classOf : Char → Nat) (cs : List Char) : RunsOf classOf cs (runs classOf cs) := by
  induction cs with
  | nil => exact .nil
  | cons c cs ih =>
    rw [runs]
    generalize runs classOf cs = rs at ih ⊢
    cases ih with
    | nil => exact .cons (classOf c) [c] (List.cons_ne_nil _ _) (by simp) (fun _ hx => nomatch hx) .nil
    | cons k run hne hrun hnext h =>
      obtain ⟨d, run, rfl⟩ := List.exists_cons_of_ne_nil hne
      have hd : classOf d = k := hrun d List.mem_cons_self
      dsimp only
      by_cases hc : classOf c = classOf d
      · rw [if_pos hc, ← List.cons_append]
        exact .cons k _ (List.cons_ne_nil _ _) (List.forall_mem_cons.mpr ⟨hc.trans hd, hrun⟩) hnext h
      · rw [if_neg hc]
        refine .cons (classOf c) [c] (List.cons_ne_nil _ _) (by simp) ?_ (.cons k _ hne hrun hnext h)
        intro x hx
        cases hx
        exact fun he => hc he.symm

theorem RunsOf.flatten {classOf : Char → Nat} {cs : List Char} {rs : List (List Char)} (h : RunsOf classOf cs rs) :
    rs.flatten = cs := by
  induction h with
  | nil => rfl
  | cons k run hne hrun hnext h ih => rw [List.flatten_cons, ih]

namespace Sheet

/-- What is written between one state of the sheet and another one. -/
def Writes (s s' : Sheet) (cs : List Char) : Prop := s'.reversed = cs.reverse ++ s.reversed

variable {s s' s'' : Sheet} {cs ds : List Char} {n : Nat}

theorem Writes.trans (h : Writes s s' cs) (h' : Writes s' s'' ds) : Writes s s'' (cs ++ ds) := by
  rw [Writes, h', h, List.reverse_append, List.append_assoc]

theorem Writes.unique (h : Writes s s' cs) (h' : Writes s s' ds) : cs = ds := by
  exact List.reverse_inj.mp (List.append_cancel_right (h.symm.trans h'))

theorem writes_put (s : Sheet) (cs : List Char) : Writes s (s.put cs) cs := rfl

theorem writes_mark (s : Sheet) (cs : List Char) : Writes s (s.mark cs) cs := rfl

theorem put_put (s : Sheet) (cs ds : List Char) : (s.put cs).put ds = s.put (cs ++ ds) := by
  simp [put, Nat.add_assoc]

theorem put_nil (s : Sheet) : s.put [] = s := by simp [put]

/-- Beyond the indentation a new line begins. -/
theorem indent_newLine (h : s.indenting = false ∨ n < s.column) :
    s.indent n = ⟨(newLine n).reverse ++ s.reversed, n, true, true⟩ := by
  have hbreak : (!s.indenting || s.column > n || (s.column == n && !s.spaced)) = true := by
    rcases h with h | h <;> simp [h]
  rw [indent, if_pos hbreak]
  by_cases hn : 0 < n
  · simp [breakLine, put, hn, newLine]
  · obtain rfl : n = 0 := Nat.eq_zero_of_not_pos hn
    rfl

/-- On a line that is not indented far enough, spaces are missing. -/
theorem indent_spaces (h : s.indenting = true) (hn : s.column ≤ n) (hspaced : s.column = n → s.spaced = true) :
    s.indent n = ⟨List.replicate (n - s.column) ' ' ++ s.reversed, n, true, true⟩ := by
  have hstay : ¬ (!s.indenting || s.column > n || (s.column == n && !s.spaced)) = true := by
    by_cases he : s.column = n
    · simp [h, he, hspaced he]
    · simp [h, he, hn]
  rw [indent, if_neg hstay]
  by_cases hless : s.column < n
  · simp [put, hless, h, Nat.add_sub_cancel' hn]
  · have he : s.column = n := Nat.le_antisymm hn (Nat.le_of_not_lt hless)
    have hfields := hspaced he
    rw [if_neg hless]
    cases s
    simp_all

end Sheet

namespace TextForms

variable {cs : List Char} {x : Char}

theorem not_special (h : isSpecial x = false) : x ≠ '\t' ∧ x ≠ '\r' ∧ x ≠ byteOrderMark := by
  refine ⟨?_, ?_, ?_⟩ <;>
  · rintro rfl
    exact absurd h (by decide)

theorem isBreak_of_isWrittenBreak (h : isWrittenBreak x = true) : isBreak x = true ∧ x ≠ '\r' := by
  simp only [isWrittenBreak, Bool.or_eq_true, beq_iff_eq] at h
  rcases h with ((rfl | rfl) | rfl) | rfl <;> decide

theorem ink_of_spaceClass (h : spaceClass x = 0) (hspecial : isSpecial x = false) :
    isSeparator (some x) = false ∧ TakesColumn x := by
  obtain ⟨htab, hreturn, hmark⟩ := not_special hspecial
  have hspace : x ≠ ' ' := by
    rintro rfl
    exact absurd h (by decide)
  have hwritten : isWrittenBreak x = false := by
    by_contra hw
    simp [spaceClass, hspace, Bool.eq_true_of_not_eq_false hw] at h
  have hbreak : isBreak x = false := by
    simp only [isWrittenBreak, Bool.or_eq_false_iff] at hwritten
    simp [isBreak, hwritten, hreturn]
  exact ⟨by simp [isSeparator, hspace, htab, hbreak], hbreak, hmark⟩

/-- A text that may stand between single quotes. -/
structure IsSingle (cs : List Char) : Prop where
  plainChars : ∀ x ∈ cs, isSpecial x = false
  noBreakSpace : hasBreakSpace cs = false
  noSpaceBreak : hasSpaceBreak cs = false

theorem isSingle_of_singleQuoted (h : (ofText cs).singleQuoted = true) : IsSingle cs := by
  cases cs with
  | nil => exact ⟨by simp, rfl, rfl⟩
  | cons c cs =>
    simp only [ofText, List.isEmpty_cons, Bool.false_eq_true, if_false, Bool.not_eq_true', Bool.or_eq_false_iff] at h
    obtain ⟨hbreak, hspace, hspecial⟩ := h
    exact ⟨by simpa using hspecial, hbreak, hspace⟩

/-- A text that may stand without quotes. -/
structure IsPlain (cs : List Char) : Prop where
  ne_nil : cs ≠ []
  plainChars : ∀ x ∈ cs, isSpecial x = false
  noBreak : ∀ x ∈ cs, isWrittenBreak x = false
  head : cs.head? ≠ some ' '
  last : cs.getLast? ≠ some ' '
  noMark : startsLikeMark cs = false
  noLead : leadsBadly cs = false
  noIndicator : hasIndicator true cs = false

theorem isPlain_of_plain (hne : cs ≠ []) (h : (ofText cs).plain = true) : IsPlain cs := by
  obtain ⟨c, cs, rfl⟩ := List.exists_cons_of_ne_nil hne
  simp only [ofText, List.isEmpty_cons, Bool.false_eq_true, if_false, Bool.not_eq_true', Bool.or_eq_false_iff] at h
  obtain ⟨⟨⟨⟨⟨hhead, hlast⟩, -⟩, -, hspecial⟩, hbreak⟩, ⟨hmark, hlead⟩, hindicator⟩ := h
  have hindicator' : hasIndicator true (c :: cs) = false := by
    have hlead' := hlead
    simp only [leadsBadly, Bool.or_eq_false_iff, Bool.and_eq_false_iff] at hlead'
    obtain ⟨hfirst, hgap⟩ := hlead'
    have hcolon : (c == ':' && endsGap cs) = false := by
      rcases hgap with hgap | hgap
      · simp [hgap.1.2]
      · simp [hgap]
    have hnumber : (c == '#') = false := by
      rw [beq_eq_false_iff_ne]
      rintro rfl
      exact absurd hfirst (by decide)
    have hrest : hasIndicator (isGap c) cs = false := hindicator
    simp [hasIndicator, hcolon, hnumber, hrest]
  exact ⟨hne, by simpa using hspecial, by simpa using hbreak, fun he => by simp [isEdge, he] at hhead,
    fun he => by simp [isEdge, he] at hlast, hmark, hlead, hindicator'⟩

/-- No word of a plain text begins with a number sign or ends with a colon. -/
theorem hasIndicator_append {a : Bool} {w rest : List Char} (h : hasIndicator a (w ++ rest) = false)
    (hrest : ∀ x ∈ rest.head?, x = ' ') : (∀ x ∈ w.getLast?, x ≠ ':') ∧ hasIndicator true rest = false := by
  have hgap : endsGap rest = true := by
    cases rest with
    | nil => rfl
    | cons x rest =>
      rw [hrest x rfl]
      rfl
  induction w generalizing a with
  | nil =>
    refine ⟨by simp, ?_⟩
    cases rest with
    | nil => rfl
    | cons x rest =>
      obtain rfl := hrest x rfl
      simpa [hasIndicator] using h
  | cons c w ih =>
    simp only [List.cons_append, hasIndicator, Bool.or_eq_false_iff] at h
    obtain ⟨⟨hcolon, -⟩, hmore⟩ := h
    obtain ⟨hlast, hindicator⟩ := ih hmore
    refine ⟨?_, hindicator⟩
    cases w with
    | nil =>
      intro x hx
      cases hx
      simpa [hgap] using hcolon
    | cons d w => simpa only [List.getLast?_cons_cons] using hlast

theorem hasBreakSpace_append {run rest : List Char} (h : hasBreakSpace (run ++ rest) = false) :
    hasBreakSpace rest = false ∧ ∀ b ∈ run.getLast?, isWrittenBreak b = true → rest.head? ≠ some ' ' := by
  induction run with
  | nil => exact ⟨h, by simp⟩
  | cons a run ih =>
    cases run with
    | nil =>
      cases rest with
      | nil => simp [hasBreakSpace]
      | cons b rest =>
        simp only [List.cons_append, List.nil_append, hasBreakSpace, Bool.or_eq_false_iff] at h
        refine ⟨h.2, fun x hx hbreak he => ?_⟩
        obtain rfl : a = x := Option.some.inj hx
        obtain rfl : b = ' ' := Option.some.inj he
        simp [hbreak] at h
    | cons b run =>
      simp only [List.cons_append, hasBreakSpace, Bool.or_eq_false_iff] at h
      simpa only [List.getLast?_cons_cons] using ih h.2

theorem hasSpaceBreak_append {run rest : List Char} (h : hasSpaceBreak (run ++ rest) = false) :
    hasSpaceBreak rest = false ∧ (run.getLast? = some ' ' → ∀ b ∈ rest.head?, isWrittenBreak b = false) := by
  induction run with
  | nil => exact ⟨h, by simp⟩
  | cons a run ih =>
    cases run with
    | nil =>
      cases rest with
      | nil => simp [hasSpaceBreak]
      | cons b rest =>
        simp only [List.cons_append, List.nil_append, hasSpaceBreak, Bool.or_eq_false_iff] at h
        refine ⟨h.2, fun hx x he => ?_⟩
        obtain rfl : a = ' ' := Option.some.inj hx
        obtain rfl : b = x := Option.some.inj he
        simpa using h.1
    | cons b run =>
      simp only [List.cons_append, hasSpaceBreak, Bool.or_eq_false_iff] at h
      simpa only [List.getLast?_cons_cons] using ih h.2

theorem IsSingle.of_append {run rest : List Char} (h : IsSingle (run ++ rest)) : IsSingle rest :=
  ⟨fun x hx => h.plainChars x (List.mem_append_right _ hx), (hasBreakSpace_append h.noBreakSpace).1,
    (hasSpaceBreak_append h.noSpaceBreak).1⟩

end TextForms

open PlainText (IsWord)
open QuotedText (plainBreak)
open TextForms (isSpecial isWrittenBreak)

namespace Sheet

variable {s : Sheet} {n : Nat} {text : List Char} {rs : List (List Char)} {split : Bool}

theorem spaceClass_eq_one {x : Char} (h : spaceClass x = 1) : x = ' ' := by
  by_contra hx
  simp only [spaceClass, beq_iff_eq, if_neg hx] at h
  split at h <;> cases h

theorem spaceClass_eq_two {x : Char} : spaceClass x = 2 ↔ isWrittenBreak x = true := by
  by_cases hx : x = ' '
  · subst hx
    decide
  · by_cases hbreak : isWrittenBreak x = true <;> simp [spaceClass, hx, hbreak]

theorem spaceClass_eq_zero {x : Char} : spaceClass x = 0 ↔ x ≠ ' ' ∧ isWrittenBreak x = false := by
  by_cases hx : x = ' '
  · subst hx
    decide
  · by_cases hbreak : isWrittenBreak x = true <;> simp [spaceClass, hx, hbreak]

theorem wrap_eq (h : s.indenting = false) : s.wrap n = ⟨(newLine n).reverse ++ s.reversed, n, false, false⟩ := by
  rw [wrap, indent_newLine (.inl h)]

theorem hasIndicator_spaces (k : Nat) (rest : List Char) :
    TextForms.hasIndicator true (List.replicate k ' ' ++ rest) = TextForms.hasIndicator true rest := by
  induction k with
  | zero => rfl
  | succ k ih =>
    rw [List.replicate_succ, List.cons_append, TextForms.hasIndicator, ← ih]
    rfl

/-- A run is spaces, breaks or a word. -/
theorem run_cases {k : Nat} {run : List Char} (hne : run ≠ []) (hrun : ∀ x ∈ run, spaceClass x = k) :
    (k = 1 ∧ ∃ j, run = List.replicate (j + 1) ' ') ∨ (k = 2 ∧ ∀ x ∈ run, isWrittenBreak x = true) ∨
      (k = 0 ∧ ∀ x ∈ run, x ≠ ' ' ∧ isWrittenBreak x = false) := by
  obtain ⟨x, ws, rfl⟩ := List.exists_cons_of_ne_nil hne
  have hx := hrun x List.mem_cons_self
  by_cases hspace : x = ' '
  · obtain rfl : k = 1 := by rw [← hx, hspace]; rfl
    exact .inl ⟨rfl, ws.length, List.eq_replicate_iff.mpr ⟨rfl, fun y hy => spaceClass_eq_one (hrun y hy)⟩⟩
  · by_cases hbreak : isWrittenBreak x = true
    · obtain rfl : k = 2 := hx.symm.trans (spaceClass_eq_two.mpr hbreak)
      exact .inr (.inl ⟨rfl, fun y hy => spaceClass_eq_two.mp (hrun y hy)⟩)
    · obtain rfl : k = 0 := hx.symm.trans (spaceClass_eq_zero.mpr ⟨hspace, Bool.eq_false_of_not_eq_true hbreak⟩)
      exact .inr (.inr ⟨rfl, fun y hy => spaceClass_eq_zero.mp (hrun y hy)⟩)

theorem eq_zero_of_replicate {j : Nat} (h : (List.replicate (j + 1) ' ' == [' ']) = true) : j = 0 := by
  have hlength := congrArg List.length (beq_iff_eq.mp h)
  simpa using hlength

theorem not_beq_space {w : List Char} (h : ∀ x ∈ w, x ≠ ' ') : ¬ (w == [' ']) = true := by
  intro he
  rw [beq_iff_eq] at he
  subst he
  exact h ' ' List.mem_cons_self rfl

/-- Spaces are written as they are, but a single one may become a line break. -/
theorem plainRuns_spaces (split : Bool) (n j : Nat) (rs : List (List Char)) (s : Sheet) :
    plainRuns split n (List.replicate (j + 1) ' ' :: rs) s =
      plainRuns split n rs (s.put (List.replicate (j + 1) ' ')) ∨
    j = 0 ∧ plainRuns split n (List.replicate (j + 1) ' ' :: rs) s = plainRuns split n rs (s.wrap n) := by
  rw [plainRuns]
  split
  · next hwrap =>
    simp only [Bool.and_eq_true] at hwrap
    exact .inr ⟨eq_zero_of_replicate hwrap.1.1, rfl⟩
  · exact .inl rfl

theorem plainRuns_word {w : List Char} (hw : ∀ x ∈ w, x ≠ ' ') :
    plainRuns split n (w :: rs) s = plainRuns split n rs (s.put w) := by
  rw [plainRuns, if_neg]
  simp [not_beq_space hw]

/-- The ink in front of a space or the end of a plain text is a word. -/
theorem isWord_of_run {w rest : List Char} (hne : w ≠ []) (hink : ∀ x ∈ w, x ≠ ' ' ∧ isWrittenBreak x = false)
    (hspecial : ∀ x ∈ w, isSpecial x = false) (hindicator : TextForms.hasIndicator true (w ++ rest) = false)
    (hrest : ∀ x ∈ rest.head?, x = ' ') : IsWord w := by
  obtain ⟨x, w, rfl⟩ := List.exists_cons_of_ne_nil hne
  have hinks := fun y hy => TextForms.ink_of_spaceClass (spaceClass_eq_zero.mpr (hink y hy)) (hspecial y hy)
  have hnumber : x ≠ '#' := by
    rintro rfl
    simp [TextForms.hasIndicator] at hindicator
  exact ⟨hne, fun y hy => (hinks y hy).1, fun y hy => (hinks y hy).2, by simpa using hnumber,
    (TextForms.hasIndicator_append hindicator hrest).1⟩

/-- Whether its spaces are wrapped or not, a plain text is written in lines that it is read from. What begins with a space
goes on from a word. -/
def PlainWrites (split : Bool) (n : Nat) (text : List Char) (rs : List (List Char)) : Prop :=
  ∀ s : Sheet, s.indenting = false → ∃ lines, Writes s (plainRuns split n rs s) lines ∧
    (plainRuns split n rs s).indenting = false ∧
    ((∃ x ∈ text.head?, x ≠ ' ') → PlainLines n text lines) ∧
    ((∀ x ∈ text.head?, x = ' ') → ∀ w, IsWord w → PlainLines n (w ++ text) (w ++ lines))

theorem plainWrites_nil : PlainWrites split n [] [] := by
  intro s hs
  refine ⟨[], rfl, hs, fun ⟨x, hx, _⟩ => (nomatch hx), fun _ w hw => ?_⟩
  rw [List.append_nil]
  exact .word w hw

/-- Spaces, in front of a word. -/
theorem PlainWrites.spaces {rest : List Char} (h : PlainWrites split n rest rs) (hword : ∃ y ∈ rest.head?, y ≠ ' ')
    (j : Nat) : PlainWrites split n (List.replicate (j + 1) ' ' ++ rest) (List.replicate (j + 1) ' ' :: rs) := by
  intro s hs
  have hfirst : ¬ ∃ y ∈ (List.replicate (j + 1) ' ' ++ rest).head?, y ≠ ' ' := by simp [List.replicate_succ]
  rcases plainRuns_spaces split n j rs s with hput | ⟨rfl, hwrap⟩
  · obtain ⟨lines, hwrites, hindenting, hlines, -⟩ := h (s.put (List.replicate (j + 1) ' ')) hs
    rw [hput]
    exact ⟨_, (writes_put s _).trans hwrites, hindenting, fun h => absurd h hfirst,
      fun _ w hw => .spaces w j hw (hlines hword)⟩
  · obtain ⟨lines, hwrites, hindenting, hlines, -⟩ := h (s.wrap n) rfl
    rw [hwrap]
    exact ⟨newLine n ++ lines, Writes.trans (by rw [wrap_eq hs]; rfl) hwrites, hindenting, fun h => absurd h hfirst,
      fun _ w hw => .wrap w hw (hlines hword)⟩

/-- A word, in front of spaces or the end. -/
theorem PlainWrites.word {w rest : List Char} (h : PlainWrites split n rest rs) (hspace : ∀ y ∈ rest.head?, y = ' ')
    (hw : IsWord w) (hink : ∀ x ∈ w, x ≠ ' ') : PlainWrites split n (w ++ rest) (w :: rs) := by
  intro s hs
  obtain ⟨lines, hwrites, hindenting, -, hlines⟩ := h (s.put w) hs
  rw [plainRuns_word hink]
  refine ⟨w ++ lines, (writes_put s _).trans hwrites, hindenting, fun _ => hlines hspace _ hw, fun hall => ?_⟩
  obtain ⟨x, w, rfl⟩ := List.exists_cons_of_ne_nil hw.ne_nil
  exact absurd (hall x rfl) (hink x List.mem_cons_self)

theorem plainRuns_writes (split : Bool) (h : RunsOf spaceClass text rs)
    (hchars : ∀ x ∈ text, isSpecial x = false ∧ isWrittenBreak x = false)
    (hindicator : TextForms.hasIndicator true text = false) (hlast : text.getLast? ≠ some ' ') :
    PlainWrites split n text rs := by
  induction h with
  | nil => exact plainWrites_nil
  | @cons k run rest more hne hrun hnext h ih =>
    obtain ⟨hcharsRun, hcharsRest⟩ := List.forall_mem_append.mp hchars
    have hlastRest : rest.getLast? ≠ some ' ' := by
      intro he
      rw [List.getLast?_append, he] at hlast
      exact hlast rfl
    rcases run_cases hne hrun with ⟨rfl, j, rfl⟩ | ⟨rfl, hbreaks⟩ | ⟨rfl, hink⟩
    · have hword : ∃ y ∈ rest.head?, y ≠ ' ' := by
        cases rest with
        | nil => simp [List.getLast?_replicate] at hlast
        | cons y rest =>
          refine ⟨y, rfl, ?_⟩
          rintro rfl
          exact hnext ' ' rfl rfl
      rw [hasIndicator_spaces] at hindicator
      exact (ih hcharsRest hindicator hlastRest).spaces hword j
    · obtain ⟨x, hx⟩ := List.exists_mem_of_ne_nil run hne
      exact absurd (hbreaks x hx) (by simp [(hcharsRun x hx).2])
    · have hspace : ∀ y ∈ rest.head?, y = ' ' := by
        intro y hy
        by_contra hne
        exact hnext y hy (spaceClass_eq_zero.mpr ⟨hne, (hcharsRest y (List.mem_of_mem_head? hy)).2⟩)
      have hw := isWord_of_run hne hink (fun x hx => (hcharsRun x hx).1) hindicator hspace
      have hindicatorRest := (TextForms.hasIndicator_append hindicator hspace).2
      exact (ih hcharsRest hindicatorRest hlastRest).word hspace hw fun x hx => (hink x hx).1

theorem foldl_breakLine {run : List Char} (hne : run ≠ []) (s : Sheet) :
    run.foldl breakLine s = ⟨run.reverse ++ s.reversed, 0, true, true⟩ := by
  induction run generalizing s with
  | nil => exact absurd rfl hne
  | cons b run ih =>
    cases run with
    | nil => rfl
    | cons c run =>
      rw [List.foldl_cons, ih (List.cons_ne_nil _ _)]
      simp [breakLine]

/-- What is written behind the first one of a run of breaks: a line feed is doubled. -/
def behindBreak (b : Char) (run : List Char) : List Char := if b = '\n' then '\n' :: run else run

/-- After a run of breaks the next line is indented. -/
theorem breaks_writes (b : Char) (run : List Char) (s : Sheet) :
    Writes s (s.breaks n (b :: run)) (b :: (behindBreak b run ++ List.replicate n ' ')) ∧
      n ≤ (s.breaks n (b :: run)).column := by
  have hfold : ∀ s : Sheet, ((b :: run).foldl breakLine s).indent n =
      ⟨List.replicate n ' ' ++ ((b :: run).reverse ++ s.reversed), n, true, true⟩ := by
    intro s
    rw [foldl_breakLine (List.cons_ne_nil _ _), indent_spaces rfl (Nat.zero_le n) (fun _ => rfl), Nat.sub_zero]
  rw [breaks, hfold]
  refine ⟨?_, Nat.le_refl n⟩
  by_cases hb : b = '\n'
  · simp [Writes, hb, breakLine, behindBreak]
  · simp [Writes, hb, behindBreak]

/-- A quote is doubled. -/
def doubled (c : Char) : List Char := if c == '\'' then ['\'', '\''] else [c]

theorem flatMap_doubled {cs : List Char} (h : ∀ x ∈ cs, x ≠ '\'') : cs.flatMap doubled = cs := by
  induction cs with
  | nil => rfl
  | cons x cs ih =>
    obtain ⟨hx, hcs⟩ := List.forall_mem_cons.mp h
    rw [List.flatMap_cons, ih hcs, doubled, if_neg (by simpa using hx), List.singleton_append]

theorem singleLines_word {w text lines : List Char} (hw : ∀ x ∈ w, isSeparator (some x) = false)
    (h : SingleLines n text lines) : SingleLines n (w ++ text) (w.flatMap doubled ++ lines) := by
  induction w with
  | nil => exact h
  | cons x w ih =>
    obtain ⟨hx, hw⟩ := List.forall_mem_cons.mp hw
    rw [List.cons_append, List.flatMap_cons, List.append_assoc]
    by_cases hquote : x = '\''
    · rw [hquote]
      exact .quote (ih hw)
    · rw [doubled, if_neg (by simpa using hquote)]
      exact .ink x hx hquote (ih hw)

/-- What a run between single quotes is read as: breaks are folded, and U+0085 is no other break than a line feed. -/
def readRun : List Char → List Char
  | [] => []
  | b :: run =>
    if isWrittenBreak b then foldBreaks (plainBreak b) ((behindBreak b run).map plainBreak) else b :: run

theorem readRun_of_ink {run : List Char} (h : ∀ x ∈ run, isWrittenBreak x = false) : readRun run = run := by
  cases run with
  | nil => rfl
  | cons x run => rw [readRun, if_neg (by simp [h x List.mem_cons_self])]

theorem map_plainBreak {run : List Char} (h : '\x85' ∉ run) : run.map plainBreak = run := by
  have hsame : ∀ x ∈ run, plainBreak x = x := by
    refine fun x hx => if_neg ?_
    rintro rfl
    exact h hx
  rw [List.map_congr_left hsame, List.map_id']

theorem readRun_eq_self {run : List Char} (h : '\x85' ∉ run) : readRun run = run := by
  cases run with
  | nil => rfl
  | cons b run =>
    obtain ⟨hb, hrun⟩ : '\x85' ≠ b ∧ '\x85' ∉ run := by simpa using h
    rw [readRun]
    split
    · by_cases hfeed : b = '\n'
      · subst hfeed
        rw [behindBreak, if_pos rfl, List.map_cons, map_plainBreak hrun]
        rfl
      · have hplain : plainBreak b = b := if_neg fun he => hb he.symm
        rw [behindBreak, if_neg hfeed, map_plainBreak hrun, hplain, foldBreaks, if_pos (bne_iff_ne.mpr hfeed)]
    · rfl

/-- No text between single quotes is read with the line break U+0085. -/
theorem nextLine_not_mem_readRun {k : Nat} {run : List Char} (hrun : ∀ x ∈ run, spaceClass x = k) :
    '\x85' ∉ readRun run := by
  have hplain : ∀ b, '\x85' ≠ plainBreak b := by
    intro b
    unfold plainBreak
    split
    · decide
    · next hb => exact fun he => hb he.symm
  have hplains : ∀ bs : List Char, '\x85' ∉ bs.map plainBreak := by
    intro bs hmem
    obtain ⟨b, -, hb⟩ := List.mem_map.mp hmem
    exact hplain b hb.symm
  cases run with
  | nil => simp [readRun]
  | cons b run =>
    rw [readRun]
    split
    · unfold foldBreaks
      split
      · rw [List.mem_cons, not_or]
        exact ⟨hplain b, hplains _⟩
      · split
        · simp
        · exact hplains _
    · next hb =>
      intro hmem
      have hclass := (hrun _ hmem).trans (hrun b List.mem_cons_self).symm
      exact hb (spaceClass_eq_two.mp (hclass.symm.trans (spaceClass_eq_two.mpr rfl)))

/-- Between single quotes a text is read as it is exactly if it has no line break U+0085. -/
theorem readRuns_eq_iff (h : RunsOf spaceClass text rs) : rs.flatMap readRun = text ↔ '\x85' ∉ text := by
  constructor
  · intro he
    rw [← he]
    clear he
    induction h with
    | nil => simp
    | cons k run hne hrun hnext h ih =>
      rw [List.flatMap_cons, List.mem_append, not_or]
      exact ⟨nextLine_not_mem_readRun hrun, ih⟩
  · intro hnone
    induction h with
    | nil => rfl
    | cons k run hne hrun hnext h ih =>
      rw [List.mem_append, not_or] at hnone
      rw [List.flatMap_cons, readRun_eq_self hnone.1, ih hnone.2]

/-! The runs of a text between single quotes, each as it is written. -/

theorem singleRuns_breaks {b : Char} {run : List Char} (hb : isWrittenBreak b = true) (first : Bool) :
    singleRuns split n first ((b :: run) :: rs) s = singleRuns split n false rs (s.breaks n (b :: run)) := by
  rw [singleRuns, if_pos (by simp [hb])]

theorem singleRuns_spaces (split : Bool) (n j : Nat) (first : Bool) (rs : List (List Char)) (s : Sheet) :
    singleRuns split n first (List.replicate (j + 1) ' ' :: rs) s =
      singleRuns split n false rs (s.put (List.replicate (j + 1) ' ')) ∨
    j = 0 ∧ singleRuns split n first (List.replicate (j + 1) ' ' :: rs) s = singleRuns split n false rs (s.indent n) := by
  have hnone : ¬ (List.replicate (j + 1) ' ').any isWrittenBreak = true := by
    simp [show isWrittenBreak ' ' = false from rfl]
  have hflat : (List.replicate (j + 1) ' ').flatMap doubled = List.replicate (j + 1) ' ' := by
    refine flatMap_doubled fun x hx => ?_
    rw [List.eq_of_mem_replicate hx]
    decide
  rw [singleRuns, if_neg hnone]
  split
  · next hone =>
    split
    · exact .inr ⟨eq_zero_of_replicate hone, rfl⟩
    · exact .inl rfl
  · refine .inl ?_
    change singleRuns split n false rs (s.put ((List.replicate (j + 1) ' ').flatMap doubled)) = _
    rw [hflat]

theorem singleRuns_word {w : List Char} (hw : ∀ x ∈ w, x ≠ ' ' ∧ isWrittenBreak x = false) (first : Bool) :
    singleRuns split n first (w :: rs) s = singleRuns split n false rs (s.put (w.flatMap doubled)) := by
  have hnone : ¬ w.any isWrittenBreak = true := by simpa using fun x hx => (hw x hx).2
  rw [singleRuns, if_neg hnone, if_neg (not_beq_space fun x hx => (hw x hx).1)]
  rfl

/-- Behind breaks, and behind spaces, there is ink or the end. -/
theorem head?_of_gap {run rest : List Char} (hne : run ≠ [])
    (hgap : (∃ j, run = List.replicate (j + 1) ' ') ∨ ∀ x ∈ run, isWrittenBreak x = true)
    (hsingle : TextForms.IsSingle (run ++ rest)) (hnext : ∀ x ∈ rest.head?, ∀ y ∈ run, spaceClass x ≠ spaceClass y) :
    ∀ x ∈ rest.head?, spaceClass x = 0 := by
  intro x hx
  obtain ⟨b, hb⟩ := Option.isSome_iff_exists.mp (List.getLast?_isSome.mpr hne)
  have hmem := List.mem_of_getLast? hb
  have hother := hnext x hx b hmem
  rcases hgap with ⟨j, rfl⟩ | hbreaks
  · obtain rfl := List.eq_of_mem_replicate hmem
    refine spaceClass_eq_zero.mpr ⟨?_, (TextForms.hasSpaceBreak_append hsingle.noSpaceBreak).2 hb x hx⟩
    rintro rfl
    exact hother rfl
  · have hbreak := hbreaks b hmem
    refine spaceClass_eq_zero.mpr ⟨?_, ?_⟩
    · rintro rfl
      exact (TextForms.hasBreakSpace_append hsingle.noBreakSpace).2 b hb hbreak hx
    · by_contra hx
      exact hother ((spaceClass_eq_two.mpr (Bool.eq_true_of_not_eq_false hx)).trans (spaceClass_eq_two.mpr hbreak).symm)

/-- What begins with ink is read as ink. -/
theorem head?_readRuns (h : RunsOf spaceClass text rs) (hspecial : ∀ x ∈ text, isSpecial x = false)
    (hink : ∀ x ∈ text.head?, spaceClass x = 0) : ∀ x ∈ (rs.flatMap readRun).head?, isSeparator (some x) = false := by
  cases h with
  | nil => exact fun x hx => nomatch hx
  | cons k run hne hrun hnext h =>
    obtain ⟨x, run, rfl⟩ := List.exists_cons_of_ne_nil hne
    have hx := hink x rfl
    intro y hy
    rw [List.flatMap_cons, readRun, if_neg (by simp [(spaceClass_eq_zero.mp hx).2])] at hy
    obtain rfl : x = y := Option.some.inj hy
    exact (TextForms.ink_of_spaceClass hx (hspecial x List.mem_cons_self)).1

/-- A text is written between single quotes in lines that are read as its runs are. -/
def SingleWrites (split : Bool) (n : Nat) (text : List Char) (rs : List (List Char)) : Prop :=
  ∀ (first : Bool) (s : Sheet), (s.indenting = false ∨ n ≤ s.column) →
    (text.head? = some ' ' → s.indenting = false ∨ n < s.column) →
    ∃ lines, Writes s (singleRuns split n first rs s) lines ∧ SingleLines n (rs.flatMap readRun) lines

namespace SingleWrites

variable {rest : List Char} (h : SingleWrites split n rest rs)
include h

theorem spaces (hspace : rest.head? ≠ some ' ')
    (hink : ∀ x ∈ (rs.flatMap readRun).head?, isSeparator (some x) = false) (j : Nat) :
    SingleWrites split n (List.replicate (j + 1) ' ' ++ rest) (List.replicate (j + 1) ' ' :: rs) := by
  intro first s hs hspaced
  have hbeyond : s.indenting = false ∨ n < s.column := hspaced (by simp [List.replicate_succ])
  rw [List.flatMap_cons, readRun_of_ink fun x hx => by rw [List.eq_of_mem_replicate hx]; rfl]
  rcases singleRuns_spaces split n j first rs s with hput | ⟨rfl, hwrap⟩
  · obtain ⟨lines, hwrites, hlines⟩ := h false (s.put (List.replicate (j + 1) ' '))
      (hbeyond.imp_right fun h => Nat.le_trans (Nat.le_of_lt h) (Nat.le_add_right _ _)) fun he => absurd he hspace
    rw [hput]
    exact ⟨_, (writes_put s _).trans hwrites, .spaces j hink hlines⟩
  · have hindent := indent_newLine hbeyond
    obtain ⟨lines, hwrites, hlines⟩ := h false (s.indent n) (.inr (by rw [hindent])) fun he => absurd he hspace
    rw [hwrap]
    exact ⟨newLine n ++ lines, Writes.trans (by rw [hindent]; rfl) hwrites, .wrap hink hlines⟩

theorem breaks (hspace : rest.head? ≠ some ' ')
    (hink : ∀ x ∈ (rs.flatMap readRun).head?, isSeparator (some x) = false) {b : Char} {run : List Char}
    (hbreaks : ∀ x ∈ b :: run, isWrittenBreak x = true) :
    SingleWrites split n (b :: run ++ rest) ((b :: run) :: rs) := by
  intro first s _ _
  have hb := hbreaks b List.mem_cons_self
  have hmore : ∀ x ∈ b :: behindBreak b run, isBreak x = true ∧ x ≠ '\r' := by
    intro x hx
    refine TextForms.isBreak_of_isWrittenBreak (hbreaks x ?_)
    unfold behindBreak at hx
    split at hx
    · next hfeed => simpa [hfeed] using hx
    · exact hx
  obtain ⟨hstep, hcolumn⟩ := breaks_writes (n := n) b run s
  obtain ⟨lines, hwrites, hlines⟩ := h false _ (.inr hcolumn) fun he => absurd he hspace
  rw [List.flatMap_cons, singleRuns_breaks hb, readRun, if_pos hb]
  refine ⟨_, hstep.trans hwrites, ?_⟩
  simpa using SingleLines.breaks b (behindBreak b run) hmore hink hlines

theorem word {w : List Char} (hne : w ≠ []) (hink : ∀ x ∈ w, x ≠ ' ' ∧ isWrittenBreak x = false)
    (hword : ∀ x ∈ w, isSeparator (some x) = false) : SingleWrites split n (w ++ rest) (w :: rs) := by
  intro first s hs _
  have hlonger : 0 < (w.flatMap doubled).length := by
    obtain ⟨x, w, rfl⟩ := List.exists_cons_of_ne_nil hne
    rw [List.flatMap_cons, List.length_append, doubled]
    split <;> simp
  obtain ⟨lines, hwrites, hlines⟩ := h false (s.put (w.flatMap doubled))
    (hs.imp_right fun h => Nat.le_trans h (Nat.le_add_right _ _))
    fun _ => hs.imp_right fun h => Nat.lt_of_le_of_lt h (Nat.lt_add_of_pos_right hlonger)
  rw [List.flatMap_cons, singleRuns_word hink, readRun_of_ink fun x hx => (hink x hx).2]
  exact ⟨_, (writes_put s _).trans hwrites, singleLines_word hword hlines⟩

end SingleWrites

theorem singleRuns_writes (split : Bool) (h : RunsOf spaceClass text rs) (hsingle : TextForms.IsSingle text) :
    SingleWrites split n text rs := by
  induction h with
  | nil => exact fun _ s _ _ => ⟨[], rfl, .nil⟩
  | @cons k run rest more hne hrun hnext h ih =>
    have ih := ih hsingle.of_append
    obtain ⟨hspecial, hspecialRest⟩ := List.forall_mem_append.mp hsingle.plainChars
    -- Behind spaces and behind breaks the text goes on with ink.
    have hother : ∀ x ∈ rest.head?, ∀ y ∈ run, spaceClass x ≠ spaceClass y := fun x hx y hy => by
      rw [hrun y hy]
      exact hnext x hx
    have hbehind (hgap : (∃ j, run = List.replicate (j + 1) ' ') ∨ ∀ x ∈ run, isWrittenBreak x = true) :
        rest.head? ≠ some ' ' ∧ ∀ x ∈ (more.flatMap readRun).head?, isSeparator (some x) = false := by
      have hclass := head?_of_gap hne hgap hsingle hother
      exact ⟨fun he => absurd (hclass ' ' he) (by decide), head?_readRuns h hspecialRest hclass⟩
    rcases run_cases hne hrun with ⟨rfl, j, rfl⟩ | ⟨rfl, hbreaks⟩ | ⟨rfl, hink⟩
    · obtain ⟨hspace, hhead⟩ := hbehind (.inl ⟨j, rfl⟩)
      exact ih.spaces hspace hhead j
    · obtain ⟨hspace, hhead⟩ := hbehind (.inr hbreaks)
      obtain ⟨b, run, rfl⟩ := List.exists_cons_of_ne_nil hne
      exact ih.breaks hspace hhead hbreaks
    · exact ih.word hne hink fun x hx => (TextForms.ink_of_spaceClass (hrun x hx) (hspecial x hx)).1

/-- An escape and then a space stand within the text. -/
def hasEscapeSpace : List Char → Bool
  | a :: b :: c :: rest => (isEscaped a && b == ' ') || hasEscapeSpace (b :: c :: rest)
  | _ => false

theorem ne_of_not_isEscaped {c x : Char} (h : isEscaped c = false) (hx : isEscaped x = true) : c ≠ x := by
  rintro rfl
  rw [h] at hx
  cases hx

theorem takesColumn_of_not_isEscaped {c : Char} (h : isEscaped c = false) : TakesColumn c := by
  have hne := fun x (hx : isEscaped x = true) => ne_of_not_isEscaped h hx
  refine ⟨?_, hne byteOrderMark rfl⟩
  simp [isBreak, hne '\n' rfl, hne '\r' rfl, hne '\x85' rfl, hne '\u2028' rfl, hne '\u2029' rfl]

theorem ink_of_not_isEscaped {c : Char} (h : isEscaped c = false) (hspace : c ≠ ' ') :
    isSeparator (some c) = false ∧ c ≠ '"' ∧ c ≠ '\\' := by
  have hbreak := (takesColumn_of_not_isEscaped h).1
  have htab : c ≠ '\t' := ne_of_not_isEscaped h rfl
  exact ⟨by simp [isSeparator, hspace, htab, hbreak], ne_of_not_isEscaped h rfl, ne_of_not_isEscaped h rfl⟩

theorem doubleLines_head {text lines : List Char} (h : DoubleLines n text lines) (hhead : text.head? ≠ some ' ') :
    lines.head? ≠ some ' ' := by
  cases h with
  | nil => exact hhead
  | ink x _ _ _ _ => exact hhead
  | space _ => exact absurd rfl hhead
  | escape x _ =>
    obtain ⟨cs, hcs⟩ := DoubleLines.exists_escaped x
    rw [hcs]
    simp
  | wrap _ _ => simp
  | escapedSpace _ => simp
  | doubleSlash _ _ => simp

theorem two_le_length_escaped (c : Char) : 2 ≤ (escaped c).length := by
  unfold escaped
  split
  · exact Nat.le_refl 2
  · dsimp only
    split
    · simp [upperHex, Text.hex]
    · split <;> simp [upperHex, Text.hex]

/-- What characters between double quotes are read as, the first one of all apart: beyond the margin a backslash and a
space come between an escape and the space behind it. -/
def readShown (beyond : Bool) : List Char → List Char
  | a :: b :: c :: rest =>
    if beyond && isEscaped a && b == ' ' then a :: '\\' :: ' ' :: readShown beyond (b :: c :: rest)
    else a :: readShown beyond (b :: c :: rest)
  | cs => cs

theorem readShown_cons {beyond : Bool} {c : Char} {cs : List Char}
    (h : beyond = true → isEscaped c = true → cs.head? = some ' ' → cs.tail = []) :
    readShown beyond (c :: cs) = c :: readShown beyond cs := by
  match cs with
  | [] => rfl
  | [_] => rfl
  | a :: b :: rest =>
    rw [readShown, if_neg]
    simp only [Bool.and_eq_true, beq_iff_eq, not_and]
    rintro ⟨hbeyond, hc⟩ rfl
    exact absurd (h hbeyond hc rfl) (List.cons_ne_nil _ _)

theorem readShown_escape {c : Char} {cs : List Char} (hc : isEscaped c = true) (hcs : cs ≠ []) :
    readShown true (c :: ' ' :: cs) = c :: '\\' :: ' ' :: ' ' :: readShown true cs := by
  obtain ⟨d, cs, rfl⟩ := List.exists_cons_of_ne_nil hcs
  have hspace : readShown true (' ' :: d :: cs) = ' ' :: readShown true (d :: cs) :=
    readShown_cons fun _ h => absurd h (by decide)
  rw [readShown, if_pos (by simp [hc]), hspace]

theorem head?_readShown (beyond : Bool) (cs : List Char) : (readShown beyond cs).head? = cs.head? := by
  match cs with
  | [] => rfl
  | [_] => rfl
  | [_, _] => rfl
  | a :: b :: c :: rest =>
    rw [readShown]
    split <;> rfl

theorem readShown_false (cs : List Char) : readShown false cs = cs := by
  induction cs with
  | nil => rfl
  | cons c cs ih => rw [readShown_cons fun h => absurd h Bool.false_ne_true, ih]

theorem length_le_readShown (beyond : Bool) (cs : List Char) : cs.length ≤ (readShown beyond cs).length := by
  fun_induction readShown beyond cs with
  | case1 a b c rest _ ih => simp only [List.length_cons] at ih ⊢; omega
  | case2 a b c rest _ ih => simp only [List.length_cons] at ih ⊢; omega
  | case3 cs => exact Nat.le_refl _

/-- Beyond the margin a text is read as it is exactly if no space follows an escape within it. -/
theorem readShown_eq_iff (cs : List Char) : readShown true cs = cs ↔ hasEscapeSpace cs = false := by
  fun_induction hasEscapeSpace cs with
  | case1 a b c rest ih =>
    by_cases hspace : (isEscaped a && b == ' ') = true
    · have hlonger : readShown true (a :: b :: c :: rest) ≠ a :: b :: c :: rest := by
        intro he
        have hlength := congrArg List.length he
        have hrest := length_le_readShown true (b :: c :: rest)
        rw [readShown, if_pos (by simpa using hspace)] at hlength
        simp only [List.length_cons] at hlength hrest
        omega
      simp [hspace, hlonger]
    · rw [readShown, if_neg (by simpa using hspace), List.cons.injEq]
      simp [Bool.eq_false_of_not_eq_true hspace, ih]
  | case2 cs h => simp [readShown]

/-- Ends the line with a backslash. Where a space follows, another one begins the new line. -/
def turn (s : Sheet) (n : Nat) (space : Bool) : Sheet :=
  if space then ((s.put ['\\']).wrap n).put ['\\'] else (s.put ['\\']).wrap n

theorem turn_writes (h : s.indenting = false) (space : Bool) :
    Writes s (s.turn n space) ('\\' :: (newLine n ++ if space then ['\\'] else [])) ∧
      (s.turn n space).indenting = false ∧ (s.turn n space).column = n + if space then 1 else 0 := by
  have hwrap : (s.put ['\\']).wrap n = ⟨(newLine n).reverse ++ (s.put ['\\']).reversed, n, false, false⟩ := wrap_eq h
  have hline : Writes s ((s.put ['\\']).wrap n) ('\\' :: newLine n) := by
    rw [hwrap]
    exact (writes_put s ['\\']).trans rfl
  cases space with
  | false =>
    rw [turn, if_neg Bool.false_ne_true, if_neg Bool.false_ne_true, if_neg Bool.false_ne_true, List.append_nil]
    exact ⟨hline, by rw [hwrap], by rw [hwrap]; rfl⟩
  | true =>
    rw [turn, if_pos rfl, if_pos rfl, if_pos rfl]
    refine ⟨hline.trans (writes_put _ ['\\']), ?_, ?_⟩
    · rw [hwrap]
      rfl
    · rw [hwrap]
      rfl

/-! One character between double quotes; lines are turned in front of a space, and around an escape. -/

theorem doubleChars_escape {c : Char} (hc : isEscaped c = true) (held cs : List Char) (s : Sheet) :
    doubleChars split n false held (c :: cs) s =
      if !cs.isEmpty && decide (((s.put held.reverse).put (escaped c)).column > margin + 1) && split then
        doubleChars split n false [] cs (((s.put held.reverse).put (escaped c)).turn n (cs.head? == some ' '))
      else doubleChars split n false [] cs ((s.put held.reverse).put (escaped c)) := by
  rw [doubleChars, turn]
  simp [hc]

theorem doubleChars_char {c : Char} (hc : isEscaped c = false) (held cs : List Char) (s : Sheet) :
    doubleChars split n false held (c :: cs) s =
      if !cs.isEmpty && (c == ' ' || held.isEmpty) && decide (s.column + held.length > margin) && split then
        doubleChars split n false [c] cs ((s.put held.reverse).turn n (c == ' '))
      else doubleChars split n false (c :: held) cs s := by
  rw [doubleChars, turn]
  simp [hc, put_put]

/-- Behind the first character, a text is written between double quotes in lines that are read as it, but for what it
gains beyond the margin. -/
def DoubleWrites (split : Bool) (n : Nat) (cs : List Char) : Prop :=
  ∀ (held : List Char) (s : Sheet), s.indenting = false →
    ((split && decide (margin ≤ n)) = true → n ≤ s.column + held.length) →
    ∃ lines, Writes s (doubleChars split n false held cs s) (held.reverse ++ lines) ∧
      DoubleLines n (readShown (split && decide (margin ≤ n)) cs) lines

/-- Where a line is turned in front of a space, the backslash in front of the space may end the next line again. -/
theorem turn_space_writes {c : Char} {cs : List Char} (hc : isEscaped c = true) (h : DoubleWrites true n cs)
    (hs : s.indenting = false) :
    ∃ lines, Writes s (doubleChars true n false [] (' ' :: cs) (s.turn n true)) lines ∧
      DoubleLines n (readShown (decide (margin ≤ n)) (c :: ' ' :: cs)).tail lines := by
  obtain ⟨hturn, hindenting, hcolumn⟩ := turn_writes (n := n) hs true
  obtain ⟨hturn', hindenting', hcolumn'⟩ := turn_writes (n := n) hindenting true
  rw [if_pos rfl] at hturn hcolumn hturn' hcolumn'
  rw [doubleChars_char (by decide), List.reverse_nil, put_nil]
  by_cases hagain : cs ≠ [] ∧ margin ≤ n
  · obtain ⟨hne, hn⟩ := hagain
    obtain ⟨lines, hwrites, hlines⟩ := h [' '] ((s.turn n true).turn n true) hindenting' fun _ => by
      rw [hcolumn']
      omega
    have hwrap : (!cs.isEmpty && (' ' == ' ' || ([] : List Char).isEmpty) &&
        decide ((s.turn n true).column + ([] : List Char).length > margin) && true) = true := by
      simp only [hcolumn, List.length_nil, Bool.and_eq_true, Bool.not_eq_true', List.isEmpty_eq_false_iff, decide_eq_true_eq]
      exact ⟨⟨⟨hne, rfl⟩, by omega⟩, trivial⟩
    rw [Bool.true_and, decide_eq_true hn] at hlines
    rw [if_pos hwrap, decide_eq_true hn, readShown_escape hc hne]
    have hall := hturn.trans (hturn'.trans hwrites)
    refine ⟨_, by simpa using hall, ?_⟩
    simpa using DoubleLines.wrap (n := n) (by simp) (.doubleSlash (by simp) (.escapedSpace hlines))
  · obtain ⟨lines, hwrites, hlines⟩ := h [' '] (s.turn n true) hindenting fun _ => by
      rw [hcolumn]
      omega
    have hstay : ¬ (!cs.isEmpty && (' ' == ' ' || ([] : List Char).isEmpty) &&
        decide ((s.turn n true).column + ([] : List Char).length > margin) && true) = true := by
      simp only [hcolumn, List.length_nil, Bool.and_eq_true, Bool.not_eq_true', List.isEmpty_eq_false_iff, decide_eq_true_eq]
      exact fun hroom => hagain ⟨hroom.1.1.1, by omega⟩
    have hend : decide (margin ≤ n) = true → cs = [] := by
      intro hn
      by_contra hne
      exact hagain ⟨hne, of_decide_eq_true hn⟩
    have hescape : readShown (decide (margin ≤ n)) (c :: ' ' :: cs) = c :: readShown (decide (margin ≤ n)) (' ' :: cs) :=
      readShown_cons fun hn _ _ => hend hn
    rw [if_neg hstay, hescape, readShown_cons fun _ h => absurd h (by decide)]
    have hall := hturn.trans hwrites
    refine ⟨_, by simpa using hall, ?_⟩
    simpa using DoubleLines.wrap (n := n) (by simp) (.escapedSpace hlines)

theorem doubleWrites_escape {c : Char} {cs : List Char} (hc : isEscaped c = true) (h : DoubleWrites split n cs)
    (hspace : ∀ rest, cs = ' ' :: rest → DoubleWrites split n rest) : DoubleWrites split n (c :: cs) := by
  intro held s hs hcolumn
  have hstep := (writes_put s held.reverse).trans (writes_put (s.put held.reverse) (escaped c))
  have hs' : ((s.put held.reverse).put (escaped c)).indenting = false := hs
  have hcolumn' : (split && decide (margin ≤ n)) = true → n + 2 ≤ ((s.put held.reverse).put (escaped c)).column := by
    intro hbeyond
    have hbefore := hcolumn hbeyond
    have hlong := two_le_length_escaped c
    simp only [put, List.length_reverse]
    omega
  rw [doubleChars_escape hc]
  generalize (s.put held.reverse).put (escaped c) = s' at hstep hs' hcolumn'
  split
  · next hwrap =>
    simp only [Bool.and_eq_true, Bool.not_eq_true', decide_eq_true_eq, List.isEmpty_eq_false_iff] at hwrap
    obtain ⟨⟨hne, -⟩, rfl⟩ := hwrap
    by_cases hhead : cs.head? = some ' '
    · obtain ⟨rest, rfl⟩ := List.head?_eq_some_iff.mp hhead
      obtain ⟨lines, hwrites, hlines⟩ := turn_space_writes hc (hspace rest rfl) hs'
      have hshown : readShown (true && decide (margin ≤ n)) (c :: ' ' :: rest) =
          c :: (readShown (decide (margin ≤ n)) (c :: ' ' :: rest)).tail := by
        obtain ⟨cs, hcs⟩ := List.head?_eq_some_iff.mp (head?_readShown (decide (margin ≤ n)) (c :: ' ' :: rest))
        rw [Bool.true_and, hcs, List.tail_cons]
      have hall := hstep.trans hwrites
      rw [hshown]
      exact ⟨_, by simpa using hall, .escape c hlines⟩
    · have hfalse : (cs.head? == some ' ') = false := by simpa using hhead
      obtain ⟨hturn, hindenting, hturned⟩ := turn_writes (n := n) hs' false
      rw [if_neg Bool.false_ne_true] at hturn hturned
      obtain ⟨lines, hwrites, hlines⟩ := h [] (s'.turn n false) hindenting fun _ => by
        rw [hturned]
        exact Nat.le_refl n
      have hfirst := doubleLines_head hlines (by rwa [head?_readShown])
      have hall := hstep.trans (hturn.trans hwrites)
      rw [readShown_cons fun _ _ h => absurd h hhead, hfalse]
      refine ⟨_, by simpa using hall, ?_⟩
      simpa using DoubleLines.escape c (.wrap hfirst hlines)
  · next hstay =>
    have hend : (split && decide (margin ≤ n)) = true → cs = [] := by
      intro hbeyond
      have hroom := hcolumn' hbeyond
      rw [Bool.and_eq_true, decide_eq_true_eq] at hbeyond
      by_contra hne
      refine hstay ?_
      simp only [hbeyond.1, Bool.and_eq_true, Bool.not_eq_true', decide_eq_true_eq, List.isEmpty_eq_false_iff]
      exact ⟨⟨hne, by omega⟩, trivial⟩
    have hshown : readShown (split && decide (margin ≤ n)) (c :: cs) =
        c :: readShown (split && decide (margin ≤ n)) cs := by
      refine readShown_cons fun hbeyond _ hhead => ?_
      rw [hend hbeyond] at hhead
      cases hhead
    obtain ⟨lines, hwrites, hlines⟩ := h [] s' hs' fun hbeyond => Nat.le_of_add_right_le (hcolumn' hbeyond)
    have hall := hstep.trans hwrites
    rw [hshown]
    exact ⟨_, by simpa using hall, .escape c hlines⟩

theorem doubleWrites_char {c : Char} {cs : List Char} (hc : isEscaped c = false) (h : DoubleWrites split n cs) :
    DoubleWrites split n (c :: cs) := by
  intro held s hs hcolumn
  have hs' : (s.put held.reverse).indenting = false := hs
  obtain ⟨hturn, hindenting, hturned⟩ := turn_writes (n := n) hs' (c == ' ')
  rw [doubleChars_char hc, readShown_cons fun _ h => absurd h (by simp [hc])]
  split
  · obtain ⟨lines, hwrites, hlines⟩ := h [c] ((s.put held.reverse).turn n (c == ' ')) hindenting fun _ => by
      rw [hturned]
      omega
    have hall := (writes_put s held.reverse).trans (hturn.trans hwrites)
    refine ⟨_, by simpa using hall, ?_⟩
    by_cases hspace : c = ' '
    · subst hspace
      simpa using DoubleLines.wrap (n := n) (by simp) (.escapedSpace hlines)
    · obtain ⟨hink, hquote, hslash⟩ := ink_of_not_isEscaped hc hspace
      simpa [hspace] using DoubleLines.wrap (n := n) (by simpa using hspace) (.ink c hink hquote hslash hlines)
  · obtain ⟨lines, hwrites, hlines⟩ := h (c :: held) s hs fun hbeyond => by
      have hbefore := hcolumn hbeyond
      rw [List.length_cons]
      omega
    refine ⟨c :: lines, by simpa using hwrites, ?_⟩
    by_cases hspace : c = ' '
    · subst hspace
      exact .space hlines
    · obtain ⟨hink, hquote, hslash⟩ := ink_of_not_isEscaped hc hspace
      exact .ink c hink hquote hslash hlines

theorem doubleWrites (split : Bool) (n : Nat) (cs : List Char) : DoubleWrites split n cs := by
  induction hlength : cs.length using Nat.strong_induction_on generalizing cs with
  | _ length ih =>
    subst hlength
    cases cs with
    | nil =>
      intro held s _ _
      refine ⟨[], ?_, .nil⟩
      rw [List.append_nil]
      exact writes_put s _
    | cons c cs =>
      have hnext := ih cs.length (Nat.lt_succ_self _) cs rfl
      cases hc : isEscaped c with
      | false => exact doubleWrites_char hc hnext
      | true =>
        refine doubleWrites_escape hc hnext fun rest he => ih rest.length ?_ rest rfl
        rw [he, List.length_cons, List.length_cons]
        omega

/-- What a text between double quotes is read as; the first character is never followed by a new line. -/
def readDouble (beyond : Bool) : List Char → List Char
  | [] => []
  | c :: cs => c :: readShown beyond cs

/-- A text is written between double quotes in lines that are read as it, but for what it gains beyond the margin. -/
theorem doubleChars_writes (split : Bool) (cs : List Char) (hs : s.indenting = false)
    (hcolumn : (split && decide (margin ≤ n)) = true → n ≤ s.column) :
    ∃ lines, Writes s (doubleChars split n true [] cs s) lines ∧
      DoubleLines n (readDouble (split && decide (margin ≤ n)) cs) lines := by
  cases cs with
  | nil => exact ⟨[], writes_put s [], .nil⟩
  | cons c cs =>
    cases hc : isEscaped c with
    | true =>
      have hfirst : doubleChars split n true [] (c :: cs) s = doubleChars split n false [] cs (s.put (escaped c)) := by
        simp [doubleChars, hc, put_nil]
      obtain ⟨lines, hwrites, hlines⟩ := doubleWrites split n cs [] (s.put (escaped c)) hs fun hbeyond =>
        Nat.le_trans (hcolumn hbeyond) (Nat.le_add_right _ _)
      rw [hfirst]
      exact ⟨_, (writes_put s _).trans hwrites, .escape c hlines⟩
    | false =>
      have hfirst : doubleChars split n true [] (c :: cs) s = doubleChars split n false [c] cs s := by
        simp [doubleChars, hc]
      obtain ⟨lines, hwrites, hlines⟩ := doubleWrites split n cs [c] s hs fun hbeyond =>
        Nat.le_trans (hcolumn hbeyond) (Nat.le_add_right _ _)
      rw [hfirst]
      refine ⟨_, hwrites, ?_⟩
      by_cases hspace : c = ' '
      · subst hspace
        exact .space hlines
      · obtain ⟨hink, hquote, hslash⟩ := ink_of_not_isEscaped hc hspace
        exact .ink c hink hquote hslash hlines

/-! A text that is not split keeps to its line. -/

theorem plainRuns_unsplit (rs : List (List Char)) (s : Sheet) : plainRuns false n rs s = s.put rs.flatten := by
  induction rs generalizing s with
  | nil => exact (put_nil s).symm
  | cons run rs ih => rw [plainRuns, if_neg (by simp), ih, put_put, List.flatten_cons]

theorem singleRuns_unsplit {rs : List (List Char)} (hbreak : ∀ x ∈ rs.flatten, isWrittenBreak x = false)
    (first : Bool) (s : Sheet) : singleRuns false n first rs s = s.put (rs.flatten.flatMap doubled) := by
  induction rs generalizing s first with
  | nil => exact (put_nil s).symm
  | cons run rs ih =>
    rw [List.flatten_cons, List.forall_mem_append] at hbreak
    have hnone : ¬ run.any isWrittenBreak = true := by simpa using hbreak.1
    have hput : singleRuns false n first (run :: rs) s = singleRuns false n false rs (s.put (run.flatMap doubled)) := by
      rw [singleRuns, if_neg hnone]
      split
      · next hone =>
        rw [beq_iff_eq.mp hone, if_neg (by simp)]
        rfl
      · rfl
    rw [hput, ih hbreak.2, put_put, List.flatten_cons, List.flatMap_append]

/-- A character between double quotes. -/
def shown (c : Char) : List Char := if isEscaped c then escaped c else [c]

theorem doubleChars_unsplit (cs : List Char) (first : Bool) (held : List Char) (s : Sheet) :
    doubleChars false n first held cs s = s.put (held.reverse ++ cs.flatMap shown) := by
  induction cs generalizing first held s with
  | nil => rw [List.flatMap_nil, List.append_nil]; rfl
  | cons c cs ih =>
    by_cases hescape : isEscaped c = true
    · simp [doubleChars, hescape, ih, put_put, shown]
    · simp [doubleChars, hescape, ih, shown]

end Sheet

end TopologyConfig.Yaml
