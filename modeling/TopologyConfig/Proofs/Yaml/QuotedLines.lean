import TopologyConfig.Proofs.Yaml.PlainLines
import TopologyConfig.Yaml.Sheet
import Mathlib.Tactic.Ring

/-!
Scalars in quotes on one line or several. A quoted text is read in words and gaps: the spaces of a line stand for
themselves, a single line feed for a space, and further breaks for themselves; in double quotes a break behind a
backslash stands for nothing.
-/
namespace TopologyConfig.Yaml

namespace QuotedText

def quote (double : Bool) : Char := if double then '"' else '\''

/-- A word of the given text is read in the given number of characters. -/
def ReadsWord (double : Bool) (c : Cursor) (text : List Char) (n : Nat) : Prop :=
  ∀ fuel, c.rest.length < fuel → word double fuel c = .ok ⟨text, c.skip n⟩

/-- Words and gaps up to the closing quote are read as the text, in the given number of characters. -/
inductive Reads (double : Bool) : Cursor → List Char → Nat → Prop where
  | close {c : Cursor} {w : List Char} {k : Nat} (hw : ReadsWord double c w k)
    (hquote : (c.skip k).peek = some (quote double)) : Reads double c w (k + 1)
  | gap {c : Cursor} {w g text : List Char} {k j n : Nat} (hw : ReadsWord double c w k)
    (hsep : ∃ x, (c.skip k).peek = some x ∧ isSeparator (some x) = true)
    (hgap : QuotedText.gap (c.skip k) = .ok ⟨g, (c.skip k).skip j⟩) (hpos : 0 < j)
    (h : Reads double ((c.skip k).skip j) text n) : Reads double c (w ++ g ++ text) (k + j + n)

section

variable {double : Bool} {c : Cursor} {w g text piece rest : List Char} {k j n : Nat} {x : Char}

/-- The reader follows the words and gaps. -/
theorem Reads.words_eq (h : Reads double c text n) :
    ∀ fuel, c.rest.length < fuel → words double fuel c = .ok ⟨text, c.skip n⟩ := by
  induction h with
  | @close c w k hw hquote =>
    intro fuel hfuel
    obtain ⟨f, rfl⟩ := Nat.exists_eq_add_one_of_ne_zero (n := fuel) (by omega)
    have hclosed : ((c.skip k).peek == some (if double then '"' else '\'')) = true := by
      rw [hquote]
      exact beq_self_eq_true _
    rw [words, hw _ (Nat.lt_succ_self _)]
    simp only [bind, Except.bind, hclosed, if_true, Cursor.skip_add]
    rfl
  | @gap c w g text k j n hw hsep hgap hpos h ih =>
    intro fuel hfuel
    obtain ⟨f, rfl⟩ := Nat.exists_eq_add_one_of_ne_zero (n := fuel) (by omega)
    obtain ⟨x, hx, hxsep⟩ := hsep
    have hopen : ((c.skip k).peek == some (if double then '"' else '\'')) = false := by
      rw [hx, beq_eq_false_iff_ne]
      intro he
      rw [Option.some.inj he] at hxsep
      cases double <;> cases hxsep
    obtain ⟨more, hmore⟩ := List.head?_eq_some_iff.mp hx
    have hlen : (c.skip k).rest.length ≤ c.rest.length := by
      rw [Cursor.rest_skip, List.length_drop]
      omega
    have hshorter := Cursor.length_rest_skip_lt hmore hpos
    have hrest := ih f (by omega)
    rw [words, hw _ (Nat.lt_succ_self _)]
    simp only [bind, Except.bind, hopen, Bool.false_eq_true, if_false, hgap, hrest, Cursor.skip_add]
    rfl

theorem readsWord_stop (h : c.rest = x :: rest) (hx : isSeparator (some x) = true) : ReadsWord double c [] 0 := by
  intro fuel hfuel
  obtain ⟨f, rfl⟩ := Nat.exists_eq_add_one_of_ne_zero (n := fuel) (by omega)
  have hsingle : (x == '\'') = false := by
    rw [beq_eq_false_iff_ne]
    rintro rfl
    cases hx
  have hdouble : (x == '"') = false := by
    rw [beq_eq_false_iff_ne]
    rintro rfl
    cases hx
  have hslash : (x == '\\') = false := by
    rw [beq_eq_false_iff_ne]
    rintro rfl
    cases hx
  rw [word]
  simp only [h, hsingle, hdouble, hslash, hx, Bool.false_eq_true, if_false, if_true]
  rfl

/-- A piece in front of a word is read into the word. -/
theorem Reads.cons_word (hpiece : ∀ w k, ReadsWord double (c.skip j) w k → ReadsWord double c (piece ++ w) (j + k))
    (h : Reads double (c.skip j) text n) : Reads double c (piece ++ text) (j + n) := by
  have hskip : ∀ m, (c.skip j).skip m = c.skip (j + m) := fun m => (Cursor.skip_add j m c).symm
  cases h with
  | close hw hquote =>
    rw [hskip] at hquote
    exact .close (hpiece _ _ hw) hquote
  | gap hw hsep hgap hpos h =>
    rw [hskip] at hsep hgap h
    have hreads := Reads.gap (hpiece _ _ hw) hsep hgap hpos h
    simpa only [List.append_assoc, Nat.add_assoc] using hreads

/-- A gap in front of a word. -/
theorem Reads.cons_gap (hc : c.rest = x :: rest) (hx : isSeparator (some x) = true)
    (hgap : QuotedText.gap c = .ok ⟨g, c.skip j⟩) (hpos : 0 < j) (h : Reads double (c.skip j) text n) :
    Reads double c (g ++ text) (j + n) := by
  have hpeek : c.peek = some x := by rw [Cursor.peek, hc, List.head?_cons]
  have hword : ReadsWord double c [] 0 := readsWord_stop hc hx
  have hreads := Reads.gap hword ⟨x, hpeek, hx⟩ hgap hpos h
  simpa only [List.nil_append, Nat.zero_add] using hreads

/-- The closing quote ends a word; of two single quotes the first one does not close. -/
theorem readsWord_close (h : c.rest = quote double :: rest) (hrest : rest.head? ≠ some '\'') :
    ReadsWord double c [] 0 := by
  intro fuel hfuel
  obtain ⟨f, rfl⟩ := Nat.exists_eq_add_one_of_ne_zero (n := fuel) (by omega)
  cases double with
  | false =>
    have hclosed : ¬ (rest.head? == some '\'') = true := by simpa using hrest
    rw [word, h]
    simp only [quote, Bool.false_eq_true, if_false, beq_self_eq_true, if_true, if_neg hclosed]
    rfl
  | true =>
    rw [word, h]
    rfl

theorem Reads.nil (h : c.rest = quote double :: rest) (hrest : rest.head? ≠ some '\'') : Reads double c [] 1 :=
  .close (readsWord_close h hrest) (by rw [Cursor.skip, Cursor.peek, h, List.head?_cons])

/-- A character that stands for itself. -/
theorem Reads.cons_ink (hc : c.rest = x :: rest) (hsep : isSeparator (some x) = false) (hquote : x ≠ quote double)
    (hslash : double = true → x ≠ '\\') (h : Reads double (c.skip 1) text n) :
    Reads double c (x :: text) (1 + n) := by
  rw [← List.singleton_append]
  refine h.cons_word fun w k hw fuel hfuel => ?_
  obtain ⟨f, rfl⟩ := Nat.exists_eq_add_one_of_ne_zero (n := fuel) (by omega)
  have hmore := hw f (Nat.lt_of_lt_of_le (Cursor.length_rest_skip_lt hc Nat.one_pos) (Nat.le_of_lt_succ hfuel))
  have hone : c.skip 1 = c.next := rfl
  rw [hone] at hmore
  rw [Cursor.skip_add, hone, word, hc]
  simp only [hmore, hsep, bind, Except.bind, pure, Except.pure]
  by_cases hsingle : x = '\''
  · subst hsingle
    cases double with
    | false => exact absurd rfl hquote
    | true => rfl
  · by_cases hdouble : x = '"'
    · subst hdouble
      cases double with
      | false => rfl
      | true => exact absurd rfl hquote
    · by_cases hback : x = '\\'
      · cases double with
        | false => simp [hback]
        | true => exact absurd hback (hslash rfl)
      · simp [hsingle, hdouble, hback]

/-- Two single quotes stand for one. -/
theorem Reads.cons_quote (hc : c.rest = '\'' :: '\'' :: rest) (h : Reads false (c.skip 2) text n) :
    Reads false c ('\'' :: text) (2 + n) := by
  rw [← List.singleton_append]
  refine h.cons_word fun w k hw fuel hfuel => ?_
  obtain ⟨f, rfl⟩ := Nat.exists_eq_add_one_of_ne_zero (n := fuel) (by omega)
  have hmore := hw f (Nat.lt_of_lt_of_le (Cursor.length_rest_skip_lt hc Nat.two_pos) (Nat.le_of_lt_succ hfuel))
  rw [Cursor.skip_add, word, hc]
  simp only [hmore, bind, Except.bind, pure, Except.pure]
  rfl

/-- An escape in double quotes. -/
theorem Reads.cons_escape (hc : c.rest = '\\' :: rest) {e : List Char} (he : escape c = .ok ⟨e, c.skip j⟩) (hpos : 0 < j)
    (h : Reads true (c.skip j) text n) : Reads true c (e ++ text) (j + n) := by
  refine h.cons_word fun w k hw fuel hfuel => ?_
  obtain ⟨f, rfl⟩ := Nat.exists_eq_add_one_of_ne_zero (n := fuel) (by omega)
  have hmore := hw f (Nat.lt_of_lt_of_le (Cursor.length_rest_skip_lt hc hpos) (Nat.le_of_lt_succ hfuel))
  rw [Cursor.skip_add, word, hc]
  simp only [he, hmore, bind, Except.bind, pure, Except.pure]
  rfl

end

/-- A line break as the reader sees it. -/
def plainBreak (b : Char) : Char := if b = '\x85' then '\n' else b

/-- The rest begins with a character that is no white space. -/
def Inked (rest : List Char) : Prop := ∃ x more, rest = x :: more ∧ isSeparator (some x) = false

section

variable {c : Cursor} {run rest : List Char} {n : Nat}

theorem isSeparator_eq_false {x : Char} (h : isSeparator (some x) = false) : x ≠ ' ' ∧ x ≠ '\t' ∧ isBreak x = false := by
  simpa [isSeparator, and_assoc] using h

theorem Inked.lineBreak? (h : Inked rest) {i l k : Nat} : (Cursor.mk rest i l k).lineBreak? = none := by
  obtain ⟨x, more, rfl, hx⟩ := h
  refine Cursor.lineBreak?_eq_none fun y hy => ?_
  cases hy
  exact (isSeparator_eq_false hx).2.2

theorem takeWhile_blanks (n : Nat) (h : Inked rest) :
    (List.replicate n ' ' ++ rest).takeWhile (fun x => x == ' ' || x == '\t') = List.replicate n ' ' := by
  obtain ⟨x, more, rfl, hx⟩ := h
  obtain ⟨hspace, htab, -⟩ := isSeparator_eq_false hx
  rw [List.takeWhile_append_of_pos (by simp), List.takeWhile_cons_of_neg (by simp [hspace, htab]), List.append_nil]

/-- Breaks are read up to the ink of an indented line. -/
theorem breaks_eq (hrun : ∀ b ∈ run, isBreak b = true ∧ b ≠ '\r') (hn : n ≠ 0) (hrest : Inked rest) :
    ∀ (fuel : Nat) (c : Cursor), run.length < fuel → c.rest = run ++ (List.replicate n ' ' ++ rest) →
      breaks fuel c = .ok ⟨run.map plainBreak, c.skip (run.length + n)⟩ := by
  induction run with
  | nil =>
    intro fuel c hfuel hc
    obtain ⟨f, rfl⟩ := Nat.exists_eq_add_one_of_ne_zero (n := fuel) (by omega)
    rw [List.nil_append] at hc
    have hmark := Cursor.atDocumentMark_spaces hc fun h0 => absurd h0 hn
    have hskip := Cursor.skip_spaces hc
    have hblanks : c.skipWhile (fun x => x == ' ' || x == '\t') = c.skip n := by
      rw [Cursor.skipWhile, hc, takeWhile_blanks n hrest, List.length_replicate]
    have hbreak : (c.skip n).lineBreak? = none := by
      rw [hskip]
      exact hrest.lineBreak?
    rw [breaks]
    simp only [hmark, Bool.false_eq_true, if_false, hblanks, hbreak, List.length_nil, Nat.zero_add]
    rfl
  | cons b run ih =>
    intro fuel c hfuel hc
    obtain ⟨f, rfl⟩ := Nat.exists_eq_add_one_of_ne_zero (n := fuel) (by omega)
    obtain ⟨⟨hb, hreturn⟩, hrun'⟩ := List.forall_mem_cons.mp hrun
    rw [List.cons_append] at hc
    have hmark : c.atDocumentMark = false := by
      refine Cursor.atDocumentMark_eq_false fun mark hm he => ?_
      rw [hc] at he
      have heq : b = mark := (List.cons.inj he).1
      subst heq
      simp only [List.mem_cons, List.not_mem_nil, or_false] at hm
      rcases hm with rfl | rfl <;> cases hb
    have hblanks : c.skipWhile (fun x => x == ' ' || x == '\t') = c := by
      have hspace : b ≠ ' ' := by
        rintro rfl
        cases hb
      have htab : b ≠ '\t' := by
        rintro rfl
        cases hb
      rw [Cursor.skipWhile, hc, List.takeWhile_cons_of_neg (by simp [hspace, htab])]
      rfl
    have hbreak : c.lineBreak? = some (plainBreak b, c.next) := Cursor.lineBreak?_of_isBreak hc hb hreturn
    have hnext : c.next.rest = run ++ (List.replicate n ' ' ++ rest) := by rw [Cursor.rest_next, hc, List.tail_cons]
    have hmore := ih hrun' f c.next (by rw [List.length_cons] at hfuel; omega) hnext
    rw [breaks]
    simp only [hmark, Bool.false_eq_true, if_false, hblanks, hbreak, hmore, bind, Except.bind]
    rw [List.length_cons, Nat.add_right_comm]
    rfl

theorem breaksAt_eq (hrun : ∀ b ∈ run, isBreak b = true ∧ b ≠ '\r') (hn : n ≠ 0) (hrest : Inked rest)
    (hc : c.rest = run ++ (List.replicate n ' ' ++ rest)) :
    breaksAt c = .ok ⟨run.map plainBreak, c.skip (run.length + n)⟩ := by
  refine breaks_eq hrun hn hrest _ c ?_ hc
  rw [hc, List.length_append]
  omega

/-- Spaces within a line stand for themselves. -/
theorem gap_spaces (hc : c.rest = List.replicate n ' ' ++ rest) (hrest : Inked rest) :
    gap c = .ok ⟨List.replicate n ' ', c.skip n⟩ := by
  have hskip := Cursor.skip_spaces hc
  have hbreak : (c.skip n).lineBreak? = none := by
    rw [hskip]
    exact hrest.lineBreak?
  have hblanks := takeWhile_blanks n hrest
  obtain ⟨x, more, hx, -⟩ := hrest
  have hmore : (c.skip n).rest = x :: more := by rw [hskip, hx]
  unfold gap
  simp only [hc, hblanks, List.length_replicate, hbreak, hmore]

/-- Breaks are folded. -/
theorem gap_breaks {b : Char} (hb : isBreak b = true) (hreturn : b ≠ '\r')
    (hrun : ∀ b ∈ run, isBreak b = true ∧ b ≠ '\r') (hn : n ≠ 0) (hrest : Inked rest)
    (hc : c.rest = b :: (run ++ (List.replicate n ' ' ++ rest))) :
    gap c = .ok ⟨foldBreaks (plainBreak b) (run.map plainBreak), c.skip (run.length + n + 1)⟩ := by
  have hblanks : c.rest.takeWhile (fun x => x == ' ' || x == '\t') = [] := by
    have hspace : b ≠ ' ' := by
      rintro rfl
      cases hb
    have htab : b ≠ '\t' := by
      rintro rfl
      cases hb
    rw [hc, List.takeWhile_cons_of_neg (by simp [hspace, htab])]
  have hbreak : c.lineBreak? = some (plainBreak b, c.next) := Cursor.lineBreak?_of_isBreak hc hb hreturn
  have hnext : c.next.rest = run ++ (List.replicate n ' ' ++ rest) := by rw [Cursor.rest_next, hc, List.tail_cons]
  have hmore := breaksAt_eq hrun hn hrest hnext
  unfold gap
  simp only [hblanks, List.length_nil, Cursor.skip, hbreak]
  split
  · next h => simp [hc] at h
  · next h _ =>
    cases h
    rw [hmore]
    rfl
  · next h _ => cases h

/-- A single line feed stands for a space. -/
theorem gap_newLine (hn : n ≠ 0) (hrest : Inked rest) (hc : c.rest = newLine n ++ rest) :
    gap c = .ok ⟨[' '], c.skip (n + 1)⟩ := by
  have hnone : ∀ x ∈ ([] : List Char), isBreak x = true ∧ x ≠ '\r' := by simp
  have hgap := gap_breaks (b := '\n') rfl (by decide) hnone hn hrest hc
  rw [hgap, List.length_nil, Nat.zero_add]
  rfl

/-- Behind a backslash a line feed stands for nothing. -/
theorem escape_newLine (hn : n ≠ 0) (hrest : Inked rest) (hc : c.rest = '\\' :: (newLine n ++ rest)) :
    escape c = .ok ⟨[], c.skip (n + 2)⟩ := by
  have hnext : c.next.rest = '\n' :: (List.replicate n ' ' ++ rest) := by rw [Cursor.rest_next, hc]; rfl
  have hbreak : c.next.lineBreak? = some ('\n', c.next.next) := Cursor.lineBreak?_of_isBreak hnext rfl (by decide)
  have hbeyond : c.next.next.rest = [] ++ (List.replicate n ' ' ++ rest) := by rw [Cursor.rest_next, hnext]; rfl
  have hmore := breaksAt_eq (by simp) hn hrest hbeyond
  have hletter : letterEscapes.lookup '\n' = none := rfl
  have hnumeric : numericLength? '\n' = none := rfl
  unfold escape
  simp only [hnext, hletter, hnumeric, hbreak, hmore, List.map_nil, List.length_nil, Nat.zero_add]
  rfl

end

section

variable {c : Cursor} {rest : List Char}

theorem escape_letter {x y : Char} (hx : letterEscapes.lookup x = some y) (hc : c.rest = '\\' :: x :: rest) :
    escape c = .ok ⟨[y], c.skip 2⟩ := by
  have hnext : c.next.rest = x :: rest := by rw [Cursor.rest_next, hc, List.tail_cons]
  unfold escape
  simp only [hnext, hx]
  rfl

theorem toNat_lt (x : Char) : x.toNat < 0x110000 := by
  rcases x.valid with h | ⟨-, h⟩
  · exact Nat.lt_trans h (by decide)
  · exact h

theorem charOfNumber_toNat (x : Char) : charOfNumber x.toNat = .ok x := by
  have hsize := toNat_lt x
  have hhuge : ¬ x.toNat ≥ Nat.pow 2 31 := by
    simp only [Nat.pow_eq, Nat.reducePow]
    omega
  have hbig : ¬ x.toNat > 0x10FFFF := by omega
  have hhalf : ¬ (0xD800 ≤ x.toNat && x.toNat < 0xE000) = true := by
    simp only [Bool.and_eq_true, decide_eq_true_eq, not_and, Nat.not_lt]
    intro hlow
    rcases x.valid with h | ⟨h, -⟩
    · exact absurd h (Nat.not_lt.mpr hlow)
    · exact h
  rw [charOfNumber, if_neg hhuge, if_neg hbig, if_neg hhalf, Char.ofNat_toNat]

theorem escape_numeric {m x : Char} {ds : List Char} (hm : letterEscapes.lookup m = none)
    (hlen : numericLength? m = some ds.length) (hds : hexNumber? ds = some x.toNat)
    (hc : c.rest = '\\' :: m :: (ds ++ rest)) : escape c = .ok ⟨[x], c.skip (ds.length + 2)⟩ := by
  have hnext : c.next.rest = m :: (ds ++ rest) := by rw [Cursor.rest_next, hc, List.tail_cons]
  unfold escape
  simp only [hnext, hm, hlen, List.take_left, hds, Nat.lt_irrefl, if_false, charOfNumber_toNat]
  rfl

theorem hexDigit?_toUpper : ∀ d < 16, hexDigit? (Nat.digitChar d).toUpper = some d := by decide

theorem hex_succ (w n : Nat) : Text.hex (w + 1) n = Nat.digitChar (n / Nat.pow 16 w % 16) :: Text.hex w n := by
  simp [Text.hex, List.range_succ]

theorem hexNumber?_upperHex {w n : Nat} (hn : n < 16 ^ w) : hexNumber? (Sheet.upperHex w n) = some n := by
  suffices hall : ∀ m, (Sheet.upperHex w n).foldlM (fun n c => (hexDigit? c).map (n * 16 + ·)) m =
      some (m * 16 ^ w + n % 16 ^ w) by
    rw [hexNumber?, hall, Nat.zero_mul, Nat.zero_add, Nat.mod_eq_of_lt hn]
  clear hn
  induction w with
  | zero =>
    intro m
    simp [Sheet.upperHex, Text.hex, Nat.mod_one]
  | succ w ih =>
    intro m
    have hdigit := hexDigit?_toUpper (n / 16 ^ w % 16) (Nat.mod_lt _ (by decide))
    have hvalue := ih (m * 16 + n / 16 ^ w % 16)
    rw [Sheet.upperHex] at hvalue
    rw [Sheet.upperHex, hex_succ, List.map_cons, List.foldlM_cons, Nat.pow_eq, hdigit]
    simp only [Option.map_some, Option.bind_eq_bind, Option.bind_some, hvalue, Nat.mod_pow_succ]
    congr 1
    ring

theorem lookup_letters : ∀ e ∈ Sheet.letters, letterEscapes.lookup e.2 = some e.1 := by decide

/-- What is escaped is read back. -/
theorem escape_escaped (x : Char) (hc : c.rest = Sheet.escaped x ++ rest) :
    escape c = .ok ⟨[x], c.skip (Sheet.escaped x).length⟩ := by
  have hnumeric : ∀ (m : Char) (w : Nat), letterEscapes.lookup m = none → numericLength? m = some w →
      x.toNat < 16 ^ w → c.rest = '\\' :: m :: Sheet.upperHex w x.toNat ++ rest →
      escape c = .ok ⟨[x], c.skip ('\\' :: m :: Sheet.upperHex w x.toNat).length⟩ := by
    intro m w hm hw hx hc
    have hlen : (Sheet.upperHex w x.toNat).length = w := by simp [Sheet.upperHex, Text.hex]
    exact escape_numeric hm (by rw [hlen, hw]) (hexNumber?_upperHex hx) hc
  unfold Sheet.escaped at hc ⊢
  cases hl : Sheet.letters.lookup x with
  | some l =>
    rw [hl] at hc
    obtain ⟨before, after, hletters, -⟩ := List.lookup_eq_some_iff.mp hl
    exact escape_letter (lookup_letters (x, l) (by rw [hletters]; simp)) hc
  | none =>
    rw [hl] at hc
    dsimp only at hc ⊢
    by_cases hbyte : x.toNat ≤ 0xFF
    · rw [if_pos hbyte] at hc ⊢
      exact hnumeric 'x' 2 rfl rfl (by omega) hc
    · by_cases hshort : x.toNat ≤ 0xFFFF
      · rw [if_neg hbyte, if_pos hshort] at hc ⊢
        exact hnumeric 'u' 4 rfl rfl (by omega) hc
      · rw [if_neg hbyte, if_neg hshort] at hc ⊢
        exact hnumeric 'U' 8 rfl rfl (Nat.lt_trans (toNat_lt x) (by decide)) hc

end

end QuotedText

open QuotedText (Reads Inked quote)

/-- What is read and its layout between single quotes, further lines being indented to `n`. -/
inductive SingleLines (n : Nat) : List Char → List Char → Prop where
  | nil : SingleLines n [] []
  | ink (x : Char) {text lines : List Char} (hx : isSeparator (some x) = false) (hquote : x ≠ '\'')
    (h : SingleLines n text lines) : SingleLines n (x :: text) (x :: lines)
  | quote {text lines : List Char} (h : SingleLines n text lines) :
    SingleLines n ('\'' :: text) ('\'' :: '\'' :: lines)
  | spaces (k : Nat) {text lines : List Char} (hink : ∀ x ∈ text.head?, isSeparator (some x) = false)
    (h : SingleLines n text lines) :
    SingleLines n (List.replicate (k + 1) ' ' ++ text) (List.replicate (k + 1) ' ' ++ lines)
  | wrap {text lines : List Char} (hink : ∀ x ∈ text.head?, isSeparator (some x) = false)
    (h : SingleLines n text lines) : SingleLines n (' ' :: text) (newLine n ++ lines)
  | breaks (b : Char) (run : List Char) {text lines : List Char} (hrun : ∀ x ∈ b :: run, isBreak x = true ∧ x ≠ '\r')
    (hink : ∀ x ∈ text.head?, isSeparator (some x) = false) (h : SingleLines n text lines) :
    SingleLines n (foldBreaks (QuotedText.plainBreak b) (run.map QuotedText.plainBreak) ++ text)
      (b :: (run ++ (List.replicate n ' ' ++ lines)))

namespace SingleLines

variable {n : Nat} {text lines : List Char}

/-- Breaks are read as white space. -/
theorem exists_foldBreaks {b : Char} {run : List Char} (hrun : ∀ x ∈ b :: run, isBreak x = true ∧ x ≠ '\r') :
    ∃ x more, foldBreaks (QuotedText.plainBreak b) (run.map QuotedText.plainBreak) = x :: more ∧
      isSeparator (some x) = true := by
  have hplain : ∀ x, isBreak x = true → isSeparator (some (QuotedText.plainBreak x)) = true := by
    intro x hx
    unfold QuotedText.plainBreak
    split
    · rfl
    · simp [isSeparator, hx]
  unfold foldBreaks
  split
  · exact ⟨_, _, rfl, hplain b (hrun b List.mem_cons_self).1⟩
  · cases run with
    | nil => exact ⟨' ', [], rfl, rfl⟩
    | cons c run => exact ⟨_, _, rfl, hplain c (hrun c (by simp)).1⟩

/-- Where the text begins with ink, so does its layout with the closing quote. -/
theorem inked (h : SingleLines n text lines) (hink : ∀ x ∈ text.head?, isSeparator (some x) = false)
    (tail : List Char) : Inked (lines ++ '\'' :: tail) := by
  cases h with
  | nil => exact ⟨'\'', tail, rfl, rfl⟩
  | ink x hx _ _ => exact ⟨x, _, rfl, hx⟩
  | quote _ => exact ⟨'\'', _, rfl, rfl⟩
  | spaces k _ _ => exact absurd (hink ' ' rfl) (by decide)
  | wrap _ _ => exact absurd (hink ' ' rfl) (by decide)
  | breaks b run hrun _ _ =>
    obtain ⟨x, more, hfold, hx⟩ := exists_foldBreaks hrun
    rw [hfold] at hink
    exact absurd (hink x rfl) (by simp [hx])

/-- Lines in single quotes are read as their text. -/
theorem reads (h : SingleLines n text lines) (hn : n ≠ 0) {tail : List Char} (htail : tail.head? ≠ some '\'') :
    ∀ c : Cursor, c.rest = lines ++ '\'' :: tail → Reads false c text (lines.length + 1) := by
  induction h with
  | nil => exact fun c hc => .nil hc htail
  | @ink x text lines hx hquote h ih =>
    intro c hc
    have hmore := ih (c.skip 1) (by rw [Cursor.rest_skip, hc]; rfl)
    have hreads : Reads false c (x :: text) (1 + (lines.length + 1)) :=
      hmore.cons_ink hc hx hquote fun h => nomatch h
    rwa [Nat.add_comm 1] at hreads
  | @quote text lines h ih =>
    intro c hc
    have hmore := ih (c.skip 2) (by rw [Cursor.rest_skip, hc]; rfl)
    have hreads := hmore.cons_quote hc
    rwa [Nat.add_comm 2] at hreads
  | @spaces k text lines hink h ih =>
    intro c hc
    rw [List.append_assoc] at hc
    have hrest := h.inked hink tail
    have hmore := ih (c.skip (k + 1)) (by rw [Cursor.skip_spaces hc])
    have hreads := hmore.cons_gap hc rfl (QuotedText.gap_spaces hc hrest) (by omega)
    rw [List.length_append, List.length_replicate, Nat.add_assoc]
    exact hreads
  | @wrap text lines hink h ih =>
    intro c hc
    rw [List.append_assoc] at hc
    have hrest := h.inked hink tail
    have hmore := ih (c.skip (n + 1)) (by rw [Cursor.skip_newLine hc])
    have hreads := hmore.cons_gap hc rfl (QuotedText.gap_newLine hn hrest hc) (by omega)
    rw [List.length_append, length_newLine, Nat.add_assoc]
    exact hreads
  | @breaks b run text lines hrun hink h ih =>
    intro c hc
    have hrest := h.inked hink tail
    obtain ⟨⟨hbreak, hreturn⟩, hrun'⟩ := List.forall_mem_cons.mp hrun
    rw [List.cons_append, List.append_assoc, List.append_assoc] at hc
    have hgap := QuotedText.gap_breaks hbreak hreturn hrun' hn hrest hc
    have hsplit : c.rest = b :: (run ++ List.replicate n ' ') ++ (lines ++ '\'' :: tail) := by
      rw [hc]
      simp
    have hmore := ih _ (Cursor.rest_skip_append (n := run.length + n + 1) hsplit (by simp))
    have hsep : isSeparator (some b) = true := by simp [isSeparator, hbreak]
    have hreads := hmore.cons_gap hc hsep hgap (by omega)
    have hlen : (b :: (run ++ (List.replicate n ' ' ++ lines))).length + 1 = run.length + n + 1 + (lines.length + 1) := by
      simp
      omega
    rwa [← hlen] at hreads

end SingleLines

/-- What is read and its layout between double quotes, further lines being indented to `n`. -/
inductive DoubleLines (n : Nat) : List Char → List Char → Prop where
  | nil : DoubleLines n [] []
  | ink (x : Char) {text lines : List Char} (hx : isSeparator (some x) = false) (hquote : x ≠ '"') (hslash : x ≠ '\\')
    (h : DoubleLines n text lines) : DoubleLines n (x :: text) (x :: lines)
  | space {text lines : List Char} (h : DoubleLines n text lines) : DoubleLines n (' ' :: text) (' ' :: lines)
  | escape (x : Char) {text lines : List Char} (h : DoubleLines n text lines) :
    DoubleLines n (x :: text) (Sheet.escaped x ++ lines)
  | wrap {text lines : List Char} (hhead : lines.head? ≠ some ' ') (h : DoubleLines n text lines) :
    DoubleLines n text ('\\' :: (newLine n ++ lines))
  /-- A space that begins a line is escaped. -/
  | escapedSpace {text lines : List Char} (h : DoubleLines n text lines) :
    DoubleLines n (' ' :: text) ('\\' :: ' ' :: lines)
  /-- Of two backslashes none stands for the end of the line, which becomes a space. -/
  | doubleSlash {text lines : List Char} (hhead : lines.head? ≠ some ' ') (h : DoubleLines n text lines) :
    DoubleLines n ('\\' :: ' ' :: text) ('\\' :: '\\' :: (newLine n ++ lines))

namespace DoubleLines

variable {n : Nat} {text lines : List Char}

theorem exists_escaped (x : Char) : ∃ cs, Sheet.escaped x = '\\' :: cs := by
  unfold Sheet.escaped
  split
  · exact ⟨_, rfl⟩
  · dsimp only
    split
    · exact ⟨_, rfl⟩
    · split <;> exact ⟨_, rfl⟩

/-- Where no space begins the layout, it begins with ink. -/
theorem inked (h : DoubleLines n text lines) (hhead : lines.head? ≠ some ' ') (tail : List Char) :
    Inked (lines ++ '"' :: tail) := by
  cases h with
  | nil => exact ⟨'"', tail, rfl, rfl⟩
  | ink x hx _ _ _ => exact ⟨x, _, rfl, hx⟩
  | space _ => exact absurd rfl hhead
  | escape x _ =>
    obtain ⟨cs, hcs⟩ := exists_escaped x
    exact ⟨'\\', _, by rw [hcs]; rfl, rfl⟩
  | wrap _ _ => exact ⟨'\\', _, rfl, rfl⟩
  | escapedSpace _ => exact ⟨'\\', _, rfl, rfl⟩
  | doubleSlash _ _ => exact ⟨'\\', _, rfl, rfl⟩

/-- Spaces are a gap of their own once what follows them is read. -/
theorem reads_spaces {tail : List Char} (hink : Inked (lines ++ '"' :: tail))
    (hreads : ∀ c : Cursor, c.rest = lines ++ '"' :: tail → Reads true c text (lines.length + 1)) :
    ∀ (k : Nat) (c : Cursor), c.rest = List.replicate k ' ' ++ (lines ++ '"' :: tail) →
      Reads true c (List.replicate k ' ' ++ text) (k + (lines.length + 1)) := by
  intro k c hc
  cases k with
  | zero =>
    rw [Nat.zero_add]
    exact hreads c hc
  | succ k =>
    have hmore := hreads (c.skip (k + 1)) (by rw [Cursor.skip_spaces hc])
    exact hmore.cons_gap hc rfl (QuotedText.gap_spaces hc hink) (by omega)

/-- Lines in double quotes are read as their text, spaces in front of it included. -/
theorem reads (h : DoubleLines n text lines) (hn : n ≠ 0) {tail : List Char} (htail : tail.head? ≠ some '\'') :
    ∀ (k : Nat) (c : Cursor), c.rest = List.replicate k ' ' ++ (lines ++ '"' :: tail) →
      Reads true c (List.replicate k ' ' ++ text) (k + (lines.length + 1)) := by
  induction h with
  | nil => exact reads_spaces ⟨'"', tail, rfl, rfl⟩ fun c hc => .nil hc htail
  | @ink x text lines hx hquote hslash h ih =>
    refine reads_spaces ⟨x, _, rfl, hx⟩ fun c hc => ?_
    have hmore := ih 0 (c.skip 1) (by rw [Cursor.rest_skip, hc]; rfl)
    rw [List.replicate_zero, List.nil_append, Nat.zero_add] at hmore
    have hreads : Reads true c (x :: text) (1 + (lines.length + 1)) := hmore.cons_ink hc hx hquote fun _ => hslash
    rwa [Nat.add_comm 1] at hreads
  | @space text lines h ih =>
    -- One more space belongs to those in front.
    intro k c hc
    have hmove : ∀ rest : List Char, List.replicate k ' ' ++ ' ' :: rest = List.replicate (k + 1) ' ' ++ rest := by
      intro rest
      rw [List.replicate_succ', List.append_assoc]
      rfl
    rw [List.cons_append, hmove] at hc
    have hreads := ih (k + 1) c hc
    rwa [← hmove, Nat.add_right_comm] at hreads
  | @escape x text lines h ih =>
    obtain ⟨cs, hcs⟩ := exists_escaped x
    have hink : Inked (Sheet.escaped x ++ lines ++ '"' :: tail) := ⟨'\\', _, by rw [hcs]; rfl, rfl⟩
    refine reads_spaces hink fun c hc => ?_
    rw [List.append_assoc] at hc
    have hescape := QuotedText.escape_escaped x hc
    have hmore := ih 0 _ (Cursor.rest_skip_append hc rfl)
    rw [hcs] at hc
    have hreads := hmore.cons_escape hc hescape (by rw [hcs]; exact Nat.succ_pos _)
    rwa [List.replicate_zero, List.nil_append, Nat.zero_add, ← Nat.add_assoc, ← List.length_append] at hreads
  | @wrap text lines hhead h ih =>
    refine reads_spaces ⟨'\\', _, rfl, rfl⟩ fun c hc => ?_
    rw [List.cons_append, List.append_assoc] at hc
    have hescape := QuotedText.escape_newLine hn (h.inked hhead tail) hc
    have hsplit : c.rest = '\\' :: newLine n ++ (lines ++ '"' :: tail) := hc
    have hmore := ih 0 (c.skip (n + 2)) (Cursor.rest_skip_append hsplit (by simp))
    have hreads := hmore.cons_escape hc hescape (by omega)
    have hlen : ('\\' :: (newLine n ++ lines)).length + 1 = n + 2 + (0 + (lines.length + 1)) := by
      simp
      omega
    rwa [List.replicate_zero, ← hlen] at hreads
  | @escapedSpace text lines h ih =>
    refine reads_spaces ⟨'\\', _, rfl, rfl⟩ fun c hc => ?_
    have hescape := QuotedText.escape_letter (x := ' ') rfl hc
    have hmore := ih 0 (c.skip 2) (by rw [Cursor.rest_skip, hc]; rfl)
    have hreads := hmore.cons_escape hc hescape (by omega)
    rw [List.replicate_zero, List.nil_append, Nat.zero_add, Nat.add_comm 2] at hreads
    exact hreads
  | @doubleSlash text lines hhead h ih =>
    refine reads_spaces ⟨'\\', _, rfl, rfl⟩ fun c hc => ?_
    have hescape := QuotedText.escape_letter (x := '\\') rfl hc
    have hline : (c.skip 2).rest = newLine n ++ (lines ++ '"' :: tail) := by
      rw [Cursor.rest_skip, hc]
      simp
    have hgap := QuotedText.gap_newLine hn (h.inked hhead tail) hline
    have hmore := ih 0 ((c.skip 2).skip (n + 1)) (by rw [Cursor.skip_newLine hline]; rfl)
    have hreads := (hmore.cons_gap hline rfl hgap (by omega)).cons_escape hc hescape (by omega)
    have hlen : ('\\' :: '\\' :: (newLine n ++ lines)).length + 1 = 2 + (n + 1 + (0 + (lines.length + 1))) := by
      simp
      omega
    rwa [List.replicate_zero, ← hlen] at hreads

end DoubleLines
end TopologyConfig.Yaml
