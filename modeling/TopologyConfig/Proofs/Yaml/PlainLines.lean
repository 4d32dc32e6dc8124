import TopologyConfig.Proofs.Yaml.Place

/-!
Plain scalars on one line or several. A text is laid out in words; between two of them stand spaces as they are, or a
new line for a single space. However it is laid out, it is read back.
-/
namespace TopologyConfig.Yaml

namespace Cursor

variable {c : Cursor} {cs rest : List Char} {n : Nat}

theorem atDocumentMark_eq_false (h : ∀ mark ∈ ['-', '.'], c.rest.take 3 ≠ [mark, mark, mark]) :
    c.atDocumentMark = false := by
  have hhyphen := h '-' (by simp)
  have hpoint := h '.' (by simp)
  simp [atDocumentMark, atMarks, hhyphen, hpoint]

/-- No document begins or ends at an indented line, nor where a token is to come. -/
theorem atDocumentMark_spaces (h : c.rest = List.replicate n ' ' ++ rest)
    (hmark : n = 0 → ∀ mark ∈ ['-', '.'], rest.take 3 ≠ [mark, mark, mark]) : c.atDocumentMark = false := by
  refine atDocumentMark_eq_false fun mark hm => ?_
  cases n with
  | zero =>
    rw [h]
    exact hmark rfl mark hm
  | succ n =>
    rw [h, List.replicate_succ]
    intro he
    have hspace : ' ' = mark := (List.cons.inj he).1
    simp [← hspace] at hm

end Cursor

namespace PlainText

/-- A word of a plain scalar. -/
structure IsWord (w : List Char) : Prop where
  ne_nil : w ≠ []
  ink : ∀ x ∈ w, isSeparator (some x) = false
  column : ∀ x ∈ w, TakesColumn x
  head : ∀ x ∈ w.head?, x ≠ '#'
  last : ∀ x ∈ w.getLast?, x ≠ ':'

/-- A word ends in front of white space, a colon before it, or the end. -/
def EndsWord (rest : List Char) : Prop :=
  isSeparator rest.head? = true ∨ ∃ more, rest = ':' :: more ∧ isSeparator more.head? = true

section

variable {w rest : List Char}

theorem IsWord.head?_append (hw : IsWord w) (rest : List Char) :
    ∃ x, (w ++ rest).head? = some x ∧ x ≠ ' ' ∧ x ≠ '#' ∧ isBreak x = false := by
  obtain ⟨x, ws, rfl⟩ := List.exists_cons_of_ne_nil hw.ne_nil
  have hink := hw.ink x List.mem_cons_self
  refine ⟨x, rfl, ?_, hw.head x rfl, (hw.column x List.mem_cons_self).1⟩
  rintro rfl
  cases hink

theorem word_append (hink : ∀ x ∈ w, isSeparator (some x) = false) (hlast : ∀ x ∈ w.getLast?, x ≠ ':')
    (hrest : EndsWord rest) : word false (w ++ rest) = w := by
  induction w with
  | nil =>
    cases rest with
    | nil => rfl
    | cons x rest =>
      have hstops : stops false x rest.head? = true := by
        rcases hrest with hsep | ⟨more, heq, hsep⟩
        · have hx : isSeparator (some x) = true := hsep
          simp [stops, hx]
        · obtain ⟨rfl, rfl⟩ := List.cons.inj heq
          simp [stops, hsep]
      rw [List.nil_append, word, if_pos hstops]
  | cons x w ih =>
    obtain ⟨hx, hw⟩ := List.forall_mem_cons.mp hink
    have hcolon : (x == ':' && isSeparator (w ++ rest).head?) = false := by
      cases w with
      | nil =>
        have hne : x ≠ ':' := hlast x rfl
        simp [hne]
      | cons y w =>
        have hy : isSeparator (some y) = false := hw y List.mem_cons_self
        simp [hy]
    have hstops : ¬ stops false x (w ++ rest).head? = true := by
      simp only [stops, hx, hcolon, Bool.false_and, Bool.or_false, Bool.false_eq_true, not_false_eq_true]
    have hlast' : ∀ y ∈ w.getLast?, y ≠ ':' := by
      intro y hy
      refine hlast y ?_
      cases w with
      | nil => cases hy
      | cons z w => rwa [List.getLast?_cons_cons]
    rw [List.cons_append, word, if_neg hstops, ih hw hlast']

end

section

variable {c : Cursor} {rest : List Char} {n : Nat}

theorem gapEnd_spaces {fuel : Nat} (hfuel : n < fuel) (h : c.rest = List.replicate n ' ' ++ rest)
    (hrest : ∀ x ∈ rest.head?, x ≠ ' ' ∧ isBreak x = false) : gapEnd fuel c = ⟨[], c.skip n, false⟩ := by
  induction n generalizing c fuel with
  | zero =>
    obtain ⟨f, rfl⟩ := Nat.exists_eq_add_one_of_ne_zero (n := fuel) (by omega)
    rw [List.replicate_zero, List.nil_append] at h
    have hspace : ¬ (c.peek == some ' ') = true := by
      rw [beq_iff_eq, Cursor.peek, h]
      exact fun he => (hrest ' ' he).1 rfl
    have hbreak : c.lineBreak? = none := Cursor.lineBreak?_eq_none fun y hy => (hrest y (h ▸ hy)).2
    rw [gapEnd, if_neg hspace, hbreak]
    rfl
  | succ n ih =>
    obtain ⟨f, rfl⟩ := Nat.exists_eq_add_one_of_ne_zero (n := fuel) (by omega)
    rw [List.replicate_succ, List.cons_append] at h
    have hspace : (c.peek == some ' ') = true := by
      rw [beq_iff_eq, Cursor.peek, h]
      rfl
    have hnext : c.next.rest = List.replicate n ' ' ++ rest := by rw [Cursor.rest_next, h, List.tail_cons]
    rw [gapEnd, if_pos hspace, ih (by omega) hnext]
    rfl

theorem takeWhile_spaces (n : Nat) (hrest : ∀ x ∈ rest.head?, x ≠ ' ') :
    (List.replicate n ' ' ++ rest).takeWhile (· == ' ') = List.replicate n ' ' := by
  have hnil : rest.takeWhile (· == ' ') = [] := by
    cases rest with
    | nil => rfl
    | cons x rest => exact List.takeWhile_cons_of_neg (by simpa using hrest x rfl)
  rw [List.takeWhile_append_of_pos (by simp), hnil, List.append_nil]

/-- Spaces within a line stand for themselves. -/
theorem gap_spaces (h : c.rest = List.replicate n ' ' ++ rest)
    (hrest : ∀ x ∈ rest.head?, x ≠ ' ' ∧ isBreak x = false) :
    gap c = ⟨List.replicate n ' ', c.skip n, false⟩ := by
  have hspaces := takeWhile_spaces n fun x hx => (hrest x hx).1
  have hskip := Cursor.skip_spaces h
  have hbreak : (c.skip n).lineBreak? = none := by
    rw [hskip]
    exact Cursor.lineBreak?_eq_none fun y hy => (hrest y hy).2
  unfold gap
  simp only [h, hspaces, List.length_replicate, hbreak]

/-- A single line feed stands for a space. -/
theorem gap_newLine (h : c.rest = newLine n ++ rest) (hrest : ∀ x ∈ rest.head?, x ≠ ' ' ∧ isBreak x = false)
    (hmark : n = 0 → ∀ mark ∈ ['-', '.'], rest.take 3 ≠ [mark, mark, mark]) :
    gap c = ⟨[' '], c.skip (n + 1), true⟩ := by
  rw [newLine_append] at h
  have hspaces : c.rest.takeWhile (· == ' ') = [] := by
    rw [h]
    rfl
  have hbreak : c.lineBreak? = some ('\n', c.next) := Cursor.lineBreak?_of_isBreak h rfl (by decide)
  have hnext : c.next.rest = List.replicate n ' ' ++ rest := by rw [Cursor.rest_next, h, List.tail_cons]
  have hend : gapEnd (c.next.rest.length + 1) c.next = ⟨[], c.next.skip n, false⟩ := by
    refine gapEnd_spaces ?_ hnext hrest
    rw [hnext, List.length_append, List.length_replicate]
    omega
  unfold gap
  simp only [hspaces, List.length_nil, Cursor.skip, hbreak, Cursor.atDocumentMark_spaces hnext hmark, hend,
    Bool.false_eq_true, if_false]
  rfl

end

end PlainText

open PlainText (IsWord EndsWord)

/-- The text and its layout, further lines being indented to `n`. -/
inductive PlainLines (n : Nat) : List Char → List Char → Prop where
  | word (w : List Char) (hw : IsWord w) : PlainLines n w w
  | spaces (w : List Char) (k : Nat) {text lines : List Char} (hw : IsWord w) (h : PlainLines n text lines) :
    PlainLines n (w ++ (List.replicate (k + 1) ' ' ++ text)) (w ++ (List.replicate (k + 1) ' ' ++ lines))
  | wrap (w : List Char) {text lines : List Char} (hw : IsWord w) (h : PlainLines n text lines) :
    PlainLines n (w ++ ' ' :: text) (w ++ (newLine n ++ lines))

namespace PlainLines

variable {n : Nat} {text lines : List Char}

theorem head?_append (h : PlainLines n text lines) (rest : List Char) :
    ∃ x, (lines ++ rest).head? = some x ∧ x ≠ ' ' ∧ x ≠ '#' ∧ isBreak x = false := by
  cases h with
  | word _ hw => exact hw.head?_append rest
  | spaces w k hw _ =>
    rw [List.append_assoc]
    exact hw.head?_append _
  | wrap w hw _ =>
    rw [List.append_assoc]
    exact hw.head?_append _

theorem ink_append (h : PlainLines n text lines) (rest : List Char) :
    ∀ x ∈ (lines ++ rest).head?, x ≠ ' ' ∧ isBreak x = false := by
  obtain ⟨y, hy, hspace, -, hbreak⟩ := h.head?_append rest
  intro x hx
  rw [hy] at hx
  cases hx
  exact ⟨hspace, hbreak⟩

theorem peek_ne (h : PlainLines n text lines) (rest : List Char) {i l k : Nat} :
    (Cursor.mk (lines ++ rest) i l k).peek ≠ some '#' := by
  obtain ⟨y, hy, -, hmark, -⟩ := h.head?_append rest
  intro he
  exact hmark (Option.some.inj (hy.symm.trans he))

/-- Once a word is read, the gap behind it decides. -/
theorem scanWords_word {w rest : List Char} (hw : IsWord w) (hends : EndsWord rest) {c : Cursor}
    (hc : c.rest = w ++ rest) {g : PlainText.Gap} (hgap : PlainText.gap (c.skip w.length) = g) (indent : Int) (fuel : Nat)
    (gap : List Char) (keyAllowed : Bool) :
    scanWords false indent (fuel + 1) gap keyAllowed c =
      if g.text.isEmpty = true ∨ g.after.peek = some '#' ∨ (g.after.column : Int) < indent then
        ⟨gap ++ w, g.after, g.broken⟩
      else
        let more := scanWords false indent fuel g.text g.broken g.after
        ⟨gap ++ w ++ more.text, more.after, more.keyAllowed⟩ := by
  obtain ⟨x, hx, -, hmark, -⟩ := hw.head?_append rest
  have hpeek : ¬ (c.peek == some '#') = true := by
    rw [beq_iff_eq, Cursor.peek, hc, hx]
    exact fun he => hmark (Option.some.inj he)
  have hword : PlainText.word false c.rest = w := by
    rw [hc]
    exact PlainText.word_append hw.ink hw.last hends
  have hfull : ¬ w.isEmpty = true := by simpa using hw.ne_nil
  rw [scanWords, if_neg hpeek]
  simp only [hword, if_neg hfull, hgap, Bool.or_eq_true, beq_iff_eq, Bool.not_false, Bool.true_and, decide_eq_true_eq,
    or_assoc, Int.ofNat_eq_natCast]

/-- The words of a plain scalar are read back up to a gap that ends the scalar. -/
theorem scanWords_eq (h : PlainLines n text lines) {indent : Int} (hn : indent ≤ n) (hpos : n ≠ 0) {rest : List Char}
    (hends : EndsWord rest) : ∀ (fuel : Nat) (gap : List Char) (keyAllowed : Bool) (c : Cursor) (g : PlainText.Gap),
      lines.length < fuel → c.rest = lines ++ rest → indent ≤ (c.column : Int) + 1 →
      PlainText.gap (c.skip lines.length) = g →
      g.text.isEmpty = true ∨ g.after.peek = some '#' ∨ (g.after.column : Int) < indent →
      scanWords false indent fuel gap keyAllowed c = ⟨gap ++ text, g.after, g.broken⟩ := by
  induction h with
  | word w hw =>
    intro fuel gap keyAllowed c g hfuel hc hcolumn hgap hlast
    obtain ⟨f, rfl⟩ := Nat.exists_eq_add_one_of_ne_zero (n := fuel) (by omega)
    rw [scanWords_word hw hends hc hgap, if_pos hlast]
  | @spaces w k text lines hw h ih =>
    intro fuel gap keyAllowed c g hfuel hc hcolumn hgap hlast
    obtain ⟨f, rfl⟩ := Nat.exists_eq_add_one_of_ne_zero (n := fuel) (by omega)
    rw [List.length_append, List.length_append, List.length_replicate] at hfuel hgap
    rw [Cursor.skip_add, Cursor.skip_add] at hgap
    rw [List.append_assoc, List.append_assoc] at hc
    have hends' : EndsWord (List.replicate (k + 1) ' ' ++ (lines ++ rest)) := .inl rfl
    have hword := Cursor.skip_of_takesColumn hc hw.column
    have hafter := PlainText.gap_spaces (c := c.skip w.length) (by rw [hword]) (h.ink_append rest)
    have hskip := Cursor.skip_spaces (c := c.skip w.length) (n := k + 1) (by rw [hword])
    rw [hskip, hword] at hgap hafter
    rw [scanWords_word hw hends' hc (by rw [hword, hafter]), if_neg]
    · have hmore := ih f (List.replicate (k + 1) ' ') false _ g (by omega) rfl (by dsimp only; omega) hgap hlast
      simp only [hmore, List.append_assoc]
    · rintro (hempty | hmark | hless)
      · simp at hempty
      · exact h.peek_ne rest hmark
      · dsimp only at hless
        omega
  | @wrap w text lines hw h ih =>
    intro fuel gap keyAllowed c g hfuel hc hcolumn hgap hlast
    obtain ⟨f, rfl⟩ := Nat.exists_eq_add_one_of_ne_zero (n := fuel) (by omega)
    rw [List.length_append, List.length_append, length_newLine] at hfuel hgap
    rw [Cursor.skip_add, Cursor.skip_add] at hgap
    rw [List.append_assoc, List.append_assoc] at hc
    have hends' : EndsWord (newLine n ++ (lines ++ rest)) := .inl rfl
    have hword := Cursor.skip_of_takesColumn hc hw.column
    have hafter := PlainText.gap_newLine (c := c.skip w.length) (by rw [hword]) (h.ink_append rest)
      fun h0 => absurd h0 hpos
    have hskip := Cursor.skip_newLine (c := c.skip w.length) (n := n) (by rw [hword])
    rw [hskip, hword] at hgap hafter
    rw [scanWords_word hw hends' hc (by rw [hword, hafter]), if_neg]
    · have hmore := ih f [' '] true _ g (by omega) rfl (by dsimp only; omega) hgap hlast
      simp only [hmore, List.append_assoc, List.singleton_append]
    · rintro (hempty | hmark | hless)
      · cases hempty
      · exact h.peek_ne rest hmark
      · dsimp only at hless
        omega

end PlainLines
end TopologyConfig.Yaml
