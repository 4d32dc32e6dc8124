import TopologyConfig.Proofs.Yaml.Steps

/-!
Single tokens. What is written for an indicator or a scalar is read as its token, whatever is read before and after it.
-/
namespace TopologyConfig.Yaml

namespace PlainLines

variable {n : Nat} {text lines : List Char}

/-- Text and lines begin with the same word. -/
theorem exists_word (h : PlainLines n text lines) : ∃ w text' lines', PlainText.IsWord w ∧ text = w ++ text' ∧
    lines = w ++ lines' ∧ (∀ x ∈ text'.head?, x = ' ') ∧ (lines' = [] ∨ isSeparator lines'.head? = true) := by
  cases h with
  | word _ hw => exact ⟨_, [], [], hw, by simp, by simp, by simp, .inl rfl⟩
  | spaces w k hw h =>
    refine ⟨w, _, _, hw, rfl, rfl, ?_, .inr rfl⟩
    intro x hx
    cases hx
    rfl
  | wrap w hw h =>
    refine ⟨w, _, _, hw, rfl, rfl, ?_, .inr rfl⟩
    intro x hx
    cases hx
    rfl

end PlainLines

theorem PlainText.EndsWord.append {lines rest : List Char} (h : EndsWord rest)
    (hlines : lines = [] ∨ isSeparator lines.head? = true) : EndsWord (lines ++ rest) := by
  cases lines with
  | nil => exact h
  | cons x lines => exact .inl (hlines.resolve_left (List.cons_ne_nil _ _))

theorem PlainText.EndsWord.head?_ne {rest : List Char} (h : EndsWord rest) {x : Char} (hx : isSeparator (some x) = false)
    (hcolon : x ≠ ':') : rest.head? ≠ some x := by
  rintro he
  rcases h with hsep | ⟨more, rfl, -⟩
  · rw [he, hx] at hsep
    cases hsep
  · exact hcolon (Option.some.inj he).symm

namespace Layout

variable {n : Nat} {isPlain : Bool} {text lines rest : List Char}

theorem length_pos (h : Layout n isPlain text lines) : 0 < lines.length := by
  cases h with
  | plain hplain h =>
    obtain ⟨w, text', lines', hw, -, rfl, -, -⟩ := h.exists_word
    rw [List.length_append]
    exact Nat.add_pos_left (List.length_pos_iff.mpr hw.ne_nil) _
  | single h => exact Nat.succ_pos _
  | double h => exact Nat.succ_pos _

/-- Three equal characters at the beginning are those of the word that the text begins with, if it ends in front of
another one. -/
theorem take_of_take_append {w tail : List Char} {m : Char} (hne : w ≠ []) (htail : tail.head? ≠ some m)
    (h : (w ++ tail).take 3 = [m, m, m]) : w.take 3 = [m, m, m] := by
  match w, hne with
  | [a], _ =>
    cases tail with
    | nil => cases h
    | cons b tail =>
      have hb : b = m := (List.cons.inj (List.cons.inj h).2).1
      exact absurd (congrArg some hb) htail
  | [a, b], _ =>
    cases tail with
    | nil => cases h
    | cons c tail =>
      have hc : c = m := (List.cons.inj (List.cons.inj (List.cons.inj h).2).2).1
      exact absurd (congrArg some hc) htail
  | a :: b :: c :: w, _ => exact h

theorem take_append_of_take {w : List Char} {m : Char} (h : w.take 3 = [m, m, m]) (tail : List Char) :
    (w ++ tail).take 3 = [m, m, m] := by
  have hlength : 3 ≤ w.length := by simpa using congrArg List.length h
  rw [List.take_append_of_le_length hlength, h]

/-- What follows a scalar ends it. -/
theorem begins (h : Layout n isPlain text lines) (hrest : PlainText.EndsWord rest) : Begins (lines ++ rest) := by
  cases h with
  | plain hplain h =>
    obtain ⟨w, text', lines', hw, rfl, rfl, htext, hlines⟩ := h.exists_word
    obtain ⟨x, ws, rfl⟩ := List.exists_cons_of_ne_nil hw.ne_nil
    refine ⟨?_, ?_⟩
    · intro y hy
      cases hy
      have hink := hw.ink x List.mem_cons_self
      refine ⟨?_, hw.head x rfl, hw.column x List.mem_cons_self⟩
      rintro rfl
      cases hink
    · intro mark hmark he
      have hends : PlainText.EndsWord (lines' ++ rest) := hrest.append hlines
      have hnone : (lines' ++ rest).head? ≠ some mark := by
        simp only [List.mem_cons, List.not_mem_nil, or_false] at hmark
        rcases hmark with rfl | rfl <;> exact hends.head?_ne rfl (by decide)
      rw [List.append_assoc] at he
      have htake : (x :: ws ++ text').take 3 = [mark, mark, mark] :=
        take_append_of_take (take_of_take_append hw.ne_nil hnone he) text'
      have hmarks := hplain.noMark
      rw [TextForms.startsLikeMark, htake] at hmarks
      simp only [List.mem_cons, List.not_mem_nil, or_false] at hmark
      rcases hmark with rfl | rfl <;> cases hmarks
  | single h =>
    refine ⟨?_, ?_⟩
    · intro x hx
      cases hx
      exact ⟨by decide, by decide, rfl, by decide⟩
    · intro mark hmark he
      have hquote : '\'' = mark := (List.cons.inj he).1
      simp [← hquote] at hmark
  | double h =>
    refine ⟨?_, ?_⟩
    · intro x hx
      cases hx
      exact ⟨by decide, by decide, rfl, by decide⟩
    · intro mark hmark he
      have hquote : '"' = mark := (List.cons.inj he).1
      simp [← hquote] at hmark

end Layout

namespace Lexer

variable {c : Cursor} {before : List Token} {m : Int} {outer : List Int} {allowed : Bool} {rest : List Char} {x : Char}

/-! Indicators. -/

theorem atMarks_eq_false (h : Begins c.rest) : c.atMarks '-' = false ∧ c.atMarks '.' = false := by
  have hhyphen := h.noMark '-' (by simp)
  have hpoint := h.noMark '.' (by simp)
  simp [Cursor.atMarks, hhyphen, hpoint]

theorem begins_indicator {x : Char} (hx : x ∈ ['-', '?', ':', '[', ']', '\x7b', '\x7d'])
    (hrest : rest.head? ≠ some '-') : Begins (x :: rest) := by
  refine ⟨?_, ?_⟩
  · intro y hy
    cases hy
    simp only [List.mem_cons, List.not_mem_nil, or_false] at hx
    rcases hx with rfl | rfl | rfl | rfl | rfl | rfl | rfl <;> exact ⟨by decide, by decide, rfl, by decide⟩
  · intro mark hmark he
    have hmark' : x = mark := (List.cons.inj he).1
    cases rest with
    | nil => cases he
    | cons y rest =>
      have hy : y = mark := (List.cons.inj (List.cons.inj he).2).1
      simp only [List.mem_cons, List.not_mem_nil, or_false] at hmark
      rcases hmark with rfl | rfl
      · exact hrest (by rw [hy, List.head?_cons])
      · rw [hmark'] at hx
        exact absurd hx (by decide)

theorem head?_ne_hyphen (h : isSeparator rest.head? = true) : rest.head? ≠ some '-' := by
  intro he
  rw [he] at h
  cases h

/-- The token that opens a collection, if none is open at the column. -/
def opening (m : Int) (n : Nat) (t : Token) : List Token := if m < n then [t] else []

/-- The indentations outside of the collection at the column. -/
def enclosing (m : Int) (n : Nat) (outer : List Int) : List Int := if m < n then m :: outer else outer

theorem insertIdx_length (l more : List Token) (t : Token) : (l ++ more).insertIdx l.length t = l ++ t :: more := by
  induction l with
  | nil => rfl
  | cons u l ih => rw [List.cons_append, List.length_cons, List.insertIdx_succ_cons, ih, List.cons_append]

theorem indentTo_stand {n : Nat} (hm : m ≤ n) (more : List Token) (t : Token) :
    (stand c (before ++ more) m outer allowed).indentTo n before.length t =
      stand c (before ++ opening m n t ++ more) n (enclosing m n outer) allowed := by
  rw [indentTo, opening, enclosing]
  by_cases hless : m < n
  · have hopen : (stand c (before ++ more) m outer allowed).indent < n := hless
    rw [if_pos hopen, if_pos hless, if_pos hless]
    simp [stand, insertIdx_length]
  · have he : m = n := by omega
    have hopen : ¬ (stand c (before ++ more) m outer allowed).indent < n := hless
    rw [if_neg hopen, if_neg hless, if_neg hless, List.append_nil, he]

theorem openBlock_stand (hm : m ≤ c.column) (t : Token) : (stand c before m outer allowed).openBlock t =
    stand c (before ++ opening m c.column t) c.column (enclosing m c.column outer) allowed := by
  have hopen : (stand c (before ++ []) m outer allowed).indentTo c.column before.length t = _ :=
    indentTo_stand hm [] t
  rw [List.append_nil, List.append_nil] at hopen
  rw [← hopen, openBlock]
  rfl

theorem act_eq {l : Lexer} {x : Char} (h : l.cursor.rest = x :: rest) : l.act = l.fetchAt x := by
  rw [act, Cursor.peek, h]
  rfl

theorem dropKey_stand : (stand c before m outer allowed).dropKey = .ok (stand c before m outer allowed) := rfl

theorem take_stand (k : Nat) (t : Token) :
    (stand c before m outer allowed).take k t = stand (c.skip k) (before ++ [t]) m outer allowed := by
  simp [take, push, stand]

theorem inFlow_stand : (stand c before m outer allowed).inFlow = false := rfl

theorem peekAt_one (hc : c.rest = x :: rest) : c.peekAt 1 = rest.head? := by
  rw [Cursor.peekAt, hc, List.getElem?_cons_succ, ← List.head?_eq_getElem?]

/-- An item of a sequence begins. -/
theorem act_entry (hc : c.rest = '-' :: rest) (hsep : isSeparator rest.head? = true) (hm : m ≤ c.column) :
    (stand c before m outer true).act =
      .ok (stand c.next (before ++ opening m c.column .blockSequenceStart ++ [.blockEntry]) c.column
        (enclosing m c.column outer) true) := by
  obtain ⟨hhyphen, hpoint⟩ := atMarks_eq_false (hc ▸ begins_indicator (by simp) (head?_ne_hyphen hsep))
  have hfetch : (stand c before m outer true).fetchAt '-' = (stand c before m outer true).fetchBlockEntry := by
    simp [fetchAt, stand, hhyphen, hpoint, peekAt_one hc, hsep]
  have hallowed : (stand c before m outer true).keyAllowed = true := rfl
  rw [act_eq hc, hfetch, fetchBlockEntry]
  simp only [inFlow_stand, hallowed, Bool.not_false, Bool.not_true, Bool.and_false, Bool.false_eq_true, if_false,
    openBlock_stand hm, dropKey_stand, bind, Except.bind, take_stand]
  rfl

/-- A key that takes a line of its own begins. -/
theorem act_key (hc : c.rest = '?' :: rest) (hsep : isSeparator rest.head? = true) (hm : m ≤ c.column) :
    (stand c before m outer true).act =
      .ok (stand c.next (before ++ opening m c.column .blockMappingStart ++ [.key]) c.column
        (enclosing m c.column outer) true) := by
  obtain ⟨hhyphen, hpoint⟩ := atMarks_eq_false (hc ▸ begins_indicator (by simp) (head?_ne_hyphen hsep))
  have hfetch : (stand c before m outer true).fetchAt '?' = (stand c before m outer true).fetchKey := by
    simp [fetchAt, stand, hhyphen, hpoint, peekAt_one hc, hsep]
  have hallowed : (stand c before m outer true).keyAllowed = true := rfl
  rw [act_eq hc, hfetch, fetchKey]
  simp only [inFlow_stand, hallowed, Bool.not_false, Bool.not_true, Bool.and_false, Bool.false_eq_true, if_false,
    openBlock_stand hm, dropKey_stand, bind, Except.bind, take_stand]
  rfl

/-- The value of such a key begins. -/
theorem act_value (hc : c.rest = ':' :: rest) (hsep : isSeparator rest.head? = true) (hm : m = c.column) :
    (stand c before m outer true).act = .ok (stand c.next (before ++ [.value]) m outer true) := by
  obtain ⟨hhyphen, hpoint⟩ := atMarks_eq_false (hc ▸ begins_indicator (by simp) (head?_ne_hyphen hsep))
  have hfetch : (stand c before m outer true).fetchAt ':' = (stand c before m outer true).fetchValue := by
    simp [fetchAt, stand, hhyphen, hpoint, peekAt_one hc, hsep]
  have hallowed : (stand c before m outer true).keyAllowed = true := rfl
  have hkeys : (stand c before m outer true).possibleKeys = [] := rfl
  have hopen : (stand c before m outer true).openBlock .blockMappingStart = _ := openBlock_stand (Int.le_of_eq hm) _
  rw [act_eq hc, hfetch, fetchValue]
  simp only [hkeys, List.find?_nil, inFlow_stand, hallowed, Bool.not_false, Bool.not_true, Bool.and_false, Bool.false_eq_true,
    if_false, hopen, dropKey_stand, bind, Except.bind, take_stand]
  rw [opening, enclosing, if_neg (by omega), if_neg (by omega), List.append_nil, ← hm]
  rfl

/-! Nodes, each of which may turn out to be a key. -/

/-- The key that the node at the cursor may be. -/
def savedKeys (c : Cursor) (before : List Token) (m : Int) (allowed : Bool) : List PossibleKey :=
  if allowed then [⟨0, before.length, decide (m = c.column), c.index, c.line, c.column⟩] else []

theorem saveKey_stand : (stand c before m outer allowed).saveKey =
    .ok { stand c before m outer allowed with possibleKeys := savedKeys c before m allowed } := by
  cases allowed with
  | false => rfl
  | true =>
    simp [saveKey, savedKeys, stand, dropKey, inFlow, column, bind, Except.bind, pure, Except.pure]
    rfl

theorem savedKeys_line {key : PossibleKey} (h : key ∈ savedKeys c before m allowed) :
    key.line = c.line ∧ key.index = c.index ∧ key.flowLevel = 0 := by
  unfold savedKeys at h
  split at h
  · cases List.mem_singleton.mp h
    exact ⟨rfl, rfl, rfl⟩
  · cases h

/-- A node that is indented is not required to be a key. -/
theorem savedKeys_required {key : PossibleKey} (h : key ∈ savedKeys c before m allowed) (hm : m < c.column) :
    key.required = false := by
  unfold savedKeys at h
  split at h
  · cases List.mem_singleton.mp h
    exact decide_eq_false (by omega)
  · cases h

/-- The marks and tokens of flow collections. -/
def flowMarks : List (Char × Char × Token × Token) := [
  ('[', ']', .flowSequenceStart, .flowSequenceEnd), ('\x7b', '\x7d', .flowMappingStart, .flowMappingEnd)]

/-- A lexer within a flow collection. -/
def inside (c : Cursor) (before : List Token) (m : Int) (outer : List Int) (keys : List PossibleKey) : Lexer :=
  ⟨c, before.toArray, 1, m, outer, true, keys, false⟩

section

variable {y : Char} {t u : Token}

theorem flowMarks_cases (h : (x, y, t, u) ∈ flowMarks) :
    (x = '[' ∧ y = ']' ∧ t = .flowSequenceStart ∧ u = .flowSequenceEnd) ∨
      (x = '\x7b' ∧ y = '\x7d' ∧ t = .flowMappingStart ∧ u = .flowMappingEnd) := by
  simpa [flowMarks] using h

theorem act_flowStart (h : (x, y, t, u) ∈ flowMarks) (hc : c.rest = x :: rest) (hrest : rest.head? ≠ some '-') :
    (stand c before m outer allowed).act =
      .ok (inside c.next (before ++ [t]) m outer (savedKeys c before m allowed)) := by
  have hstart : (stand c before m outer allowed).fetchFlowStart t =
      .ok (inside c.next (before ++ [t]) m outer (savedKeys c before m allowed)) := by
    rw [fetchFlowStart, saveKey_stand]
    simp [bind, Except.bind, pure, Except.pure, take, push, stand, inside, Cursor.skip]
  rw [act_eq hc, ← hstart]
  rcases flowMarks_cases h with ⟨rfl, -, rfl, -⟩ | ⟨rfl, -, rfl, -⟩
  · obtain ⟨hhyphen, hpoint⟩ := atMarks_eq_false (hc ▸ begins_indicator (by simp) hrest)
    simp [fetchAt, stand, hhyphen, hpoint]
  · obtain ⟨hhyphen, hpoint⟩ := atMarks_eq_false (hc ▸ begins_indicator (by simp) hrest)
    simp [fetchAt, stand, hhyphen, hpoint]

theorem act_flowEnd {keys : List PossibleKey} (h : (x, y, t, u) ∈ flowMarks) (hc : c.rest = y :: rest)
    (hrest : rest.head? ≠ some '-') (hkeys : ∀ key ∈ keys, key.flowLevel = 0) :
    (inside c before m outer keys).act =
      .ok { stand c.next (before ++ [u]) m outer false with possibleKeys := keys } := by
  have hdrop : (inside c before m outer keys).dropKey = .ok (inside c before m outer keys) := by
    have hnone : ¬ keys.any (fun k => k.flowLevel == 1 && k.required) = true := by
      simpa using fun k hk hlevel => absurd ((hkeys k hk).symm.trans hlevel) (by decide)
    have hkeep : keys.filter (·.flowLevel != 1) = keys := by
      rw [List.filter_eq_self]
      intro k hk
      rw [hkeys k hk]
      rfl
    rw [dropKey]
    simp only [inside, if_neg hnone, hkeep]
  have hend : (inside c before m outer keys).fetchFlowEnd u =
      .ok { stand c.next (before ++ [u]) m outer false with possibleKeys := keys } := by
    rw [fetchFlowEnd, hdrop]
    simp [bind, Except.bind, pure, Except.pure, take, push, stand, inside, inFlow, Cursor.skip]
  rw [act_eq hc, ← hend]
  rcases flowMarks_cases h with ⟨-, rfl, -, rfl⟩ | ⟨-, rfl, -, rfl⟩
  · obtain ⟨hhyphen, hpoint⟩ := atMarks_eq_false (hc ▸ begins_indicator (by simp) hrest)
    simp [fetchAt, inside, hhyphen, hpoint]
  · obtain ⟨hhyphen, hpoint⟩ := atMarks_eq_false (hc ▸ begins_indicator (by simp) hrest)
    simp [fetchAt, inside, hhyphen, hpoint]

/-- A collection without items stands on its line. -/
theorem steps_empty {k : Nat} (h : (x, y, t, u) ∈ flowMarks) (hc : c.rest = x :: y :: (newLine k ++ rest))
    (hrest : Begins rest) (hm : m < c.column) : Steps (stand c before m outer allowed)
      ((stand ((c.skip 2).skip (k + 1)) (before ++ [t, u]) m outer true).unwind k) := by
  have hx : TakesColumn x ∧ x ≠ '-' ∧ TakesColumn y ∧ y ≠ '-' ∧ y ∈ ['-', '?', ':', '[', ']', '\x7b', '\x7d'] := by
    rcases flowMarks_cases h with ⟨rfl, rfl, -, -⟩ | ⟨rfl, rfl, -, -⟩ <;>
      exact ⟨⟨rfl, by decide⟩, by decide, ⟨rfl, by decide⟩, by decide, by decide⟩
  obtain ⟨hcolumn, -, hcolumn', hhyphen, hmark⟩ := hx
  have hnext := Cursor.next_of_takesColumn hc hcolumn
  have hrestNext : c.next.rest = y :: (newLine k ++ rest) := by rw [hnext]
  have hnext' := Cursor.next_of_takesColumn hrestNext hcolumn'
  have hskip : c.skip 2 = ⟨newLine k ++ rest, c.index + 1 + 1, c.line, c.column + 1 + 1⟩ := by
    rw [Cursor.skip, Cursor.skip, Cursor.skip, hnext', hnext]
  have hbegins : Begins c.next.rest := hrestNext ▸ begins_indicator hmark (by simp [newLine])
  have hkeys : ∀ key ∈ savedKeys c before m allowed, key.line = c.line ∧ key.index = c.index ∧ key.flowLevel = 0 :=
    fun key hkey => savedKeys_line hkey
  -- In front of the closing mark.
  have harrives : Arrives (inside c.next (before ++ [t]) m outer (savedKeys c before m allowed))
      (inside c.next (before ++ [t]) m outer (savedKeys c before m allowed)) := by
    have hstay := toNextToken_spaces (l := inside c.next (before ++ [t]) m outer (savedKeys c before m allowed)) (k := 0)
      rfl hbegins
    refine ⟨inside c.next (before ++ [t]) m outer (savedKeys c before m allowed), ?_, rfl⟩
    rw [hstay]
    refine dropStaleKeys_fresh fun key hkey => ?_
    obtain ⟨hline, hindex, -⟩ := hkeys key hkey
    simp only [inside, Cursor.skip, hnext, hline, hindex, true_and]
    omega
  have hclose : Arrives { stand (c.skip 2) (before ++ [t] ++ [u]) m outer false with
        possibleKeys := savedKeys c before m allowed }
      ((stand ((c.skip 2).skip (k + 1)) (before ++ [t] ++ [u]) m outer true).unwind k) := by
    refine arrives_newLine (by rw [hskip]) hrest fun key hkey => ⟨savedKeys_required hkey hm, ?_⟩
    rw [hskip, (hkeys key hkey).1]
  have hsecond : (inside c.next (before ++ [t]) m outer (savedKeys c before m allowed)).act = _ :=
    act_flowEnd h hrestNext (by simp [newLine]) fun key hkey => (hkeys key hkey).2.2
  rw [List.append_cons before t [u]]
  refine Step.of_leads (act_flowStart h hc (by simpa using hhyphen)) rfl ?_ ⟨_, harrives, ?_⟩
  · simp only [inside, hrestNext, stand, hc, List.length_cons]
    omega
  · refine Step.of_leads hsecond rfl ?_ ⟨_, hclose, .refl⟩
    simp only [inside, stand, hnext', hrestNext, List.length_cons]
    omega

end

section

variable {n : Nat} {text lines : List Char}

theorem indicators_eq : indicators = ['-', '?', ':', ',', '[', ']', '\x7b', '\x7d', '#', '&', '*', '!', '|', '>', '\'',
    '"', '%', '@', '\x60'] := by
  decide

/-- A plain scalar is taken for one by its first two characters. -/
theorem act_eq_fetchPlain {l : Lexer} (hplain : TextForms.IsPlain text) (h : PlainLines n text lines)
    (hc : l.cursor.rest = lines ++ rest) (hrest : PlainText.EndsWord rest) (hflow : l.inFlow = false) :
    l.act = l.fetchPlain := by
  have hbegins : Begins l.cursor.rest := hc ▸ (Layout.plain hplain h).begins hrest
  obtain ⟨hhyphen, hpoint⟩ := atMarks_eq_false hbegins
  obtain ⟨w, text', lines', hw, rfl, rfl, htext, hlines⟩ := h.exists_word
  obtain ⟨x, ws, rfl⟩ := List.exists_cons_of_ne_nil hw.ne_nil
  have hink := hw.ink x List.mem_cons_self
  have hlead := hplain.noLead
  rw [List.cons_append, TextForms.leadsBadly, Bool.or_eq_false_iff] at hlead
  obtain ⟨hmarks, hindicator⟩ := hlead
  simp only [String.reduceToList, List.contains_eq_mem, List.mem_cons, List.not_mem_nil, or_false, decide_eq_false_iff_not,
    not_or] at hmarks
  -- A mark that may also be an indicator has ink behind it.
  have hfollowing : x = '?' ∨ x = ':' ∨ x = '-' → isSeparator (l.cursor.peekAt 1) = false := by
    intro hx
    have hmark : (x == '?' || x == ':' || x == '-') = true := by simpa [or_assoc] using hx
    rw [hmark, Bool.true_and] at hindicator
    cases ws with
    | nil =>
      cases text' with
      | nil => cases hindicator
      | cons y text' =>
        rw [htext y rfl] at hindicator
        cases hindicator
    | cons y ws =>
      rw [peekAt_one hc]
      exact hw.ink y (by simp)
  have hseparate : ∀ y, y = '?' ∨ y = ':' ∨ y = '-' → (x == y && isSeparator (l.cursor.peekAt 1)) = false := by
    intro y hy
    by_cases he : x = y
    · rw [hfollowing (he ▸ hy), Bool.and_false]
    · rw [beq_eq_false_iff_ne.mpr he, Bool.false_and]
  have hentry := hseparate '-' (by simp)
  have hkey := hseparate '?' (by simp)
  have hvalue := hseparate ':' (by simp)
  have hatPlain : l.atPlain x (l.cursor.peekAt 1) = true := by
    by_cases hx : x = '?' ∨ x = ':' ∨ x = '-'
    · have hsep := hfollowing hx
      rcases hx with rfl | rfl | rfl <;> simp [atPlain, hsep, hflow]
    · simp only [not_or] at hx
      have hnone : x ∉ indicators := by
        rw [indicators_eq]
        simp only [List.mem_cons, hx, hmarks, List.not_mem_nil, or_self, not_false_eq_true]
      simp [atPlain, hink, hnone]
  rw [act_eq hc]
  simp [fetchAt, hhyphen, hpoint, hentry, hkey, hvalue, hatPlain, hflow, hmarks]

/-- A plain scalar ends where the gap behind it says so. -/
theorem act_plain (hplain : TextForms.IsPlain text) (h : PlainLines n text lines) (hn : m + 1 ≤ n) (hpos : n ≠ 0)
    (hc : c.rest = lines ++ rest) (hrest : PlainText.EndsWord rest) (hm : m ≤ c.column) {g : PlainText.Gap}
    (hgap : PlainText.gap (c.skip lines.length) = g)
    (hlast : g.text.isEmpty = true ∨ g.after.peek = some '#' ∨ (g.after.column : Int) < m + 1) :
    (stand c before m outer allowed).act =
      .ok { stand g.after (before ++ [.scalar true (String.ofList text)]) m outer g.broken with
        possibleKeys := savedKeys c before m allowed } := by
  have hfuel : lines.length < c.rest.length + 1 := by
    rw [hc, List.length_append]
    omega
  have hscan : scanPlain false (m + 1) c = ⟨text, g.after, g.broken⟩ :=
    h.scanWords_eq hn hpos hrest (c.rest.length + 1) [] false c g hfuel hc (by omega) hgap hlast
  rw [act_eq_fetchPlain hplain h hc hrest inFlow_stand, fetchPlain, saveKey_stand]
  simp only [bind, Except.bind, pure, Except.pure, stand, inFlow, Nat.lt_irrefl, decide_false, hscan, push,
    List.push_toArray]

/-- A scalar between quotes. -/
theorem act_quoted (h : Layout n false text lines) (hpos : n ≠ 0) (hc : c.rest = lines ++ rest)
    (hrest : PlainText.EndsWord rest) :
    (stand c before m outer allowed).act =
      .ok { stand (c.skip lines.length) (before ++ [.scalar false (String.ofList text)]) m outer false with
        possibleKeys := savedKeys c before m allowed } := by
  have hquote : rest.head? ≠ some '\'' := hrest.head?_ne rfl (by decide)
  have hbegins : Begins c.rest := hc ▸ h.begins hrest
  obtain ⟨hhyphen, hpoint⟩ := atMarks_eq_false hbegins
  have hnode : ∀ double : Bool, scanQuoted double c = .ok ⟨text, c.skip lines.length⟩ →
      (stand c before m outer allowed).fetchQuoted double =
        .ok { stand (c.skip lines.length) (before ++ [.scalar false (String.ofList text)]) m outer false with
          possibleKeys := savedKeys c before m allowed } := by
    intro double hscan
    rw [fetchQuoted, fetchNode, saveKey_stand]
    simp only [bind, Except.bind, pure, Except.pure, stand, hscan, push, List.push_toArray]
  have hfuel : c.next.rest.length < c.rest.length + 1 := by
    rw [Cursor.rest_next, List.length_tail]
    omega
  cases h with
  | @single _ lines h =>
    rw [List.cons_append, List.append_assoc] at hc
    have hnext : c.next.rest = lines ++ '\'' :: rest := by rw [Cursor.rest_next, hc]; rfl
    have hreads := (h.reads hpos hquote c.next hnext).words_eq _ hfuel
    rw [act_eq hc, ← hnode false (by simpa [scanQuoted, Cursor.skip] using hreads)]
    simp [fetchAt, stand, hhyphen, hpoint]
  | @double _ lines h =>
    rw [List.cons_append, List.append_assoc] at hc
    have hnext : c.next.rest = lines ++ '"' :: rest := by rw [Cursor.rest_next, hc]; rfl
    have hreads := (h.reads hpos hquote 0 c.next hnext).words_eq _ hfuel
    rw [act_eq hc, ← hnode true (by simpa [scanQuoted, Cursor.skip] using hreads)]
    simp [fetchAt, stand, hhyphen, hpoint]

/-- A scalar and the line break after it. -/
theorem steps_scalar {isPlain : Bool} {k : Nat} (h : Layout n isPlain text lines) (hn : m + 1 ≤ n) (hpos : n ≠ 0)
    (hc : c.rest = lines ++ (newLine k ++ rest)) (hrest : Begins rest) (hk : (k : Int) ≤ m) (hm : m < c.column) :
    Steps (stand c before m outer allowed)
      ((stand ((c.skip lines.length).skip (k + 1)) (before ++ [.scalar isPlain (String.ofList text)]) m outer
        true).unwind k) := by
  have hends : PlainText.EndsWord (newLine k ++ rest) := .inl rfl
  have hafter : (c.skip lines.length).rest = newLine k ++ rest := Cursor.rest_skip_append hc rfl
  have hskip := Cursor.skip_newLine hafter
  have hline := Cursor.line_le_skip lines.length c
  have hpositive := h.length_pos
  have hlength : c.rest.length = lines.length + (k + 1 + rest.length) := by
    rw [hc, List.length_append, List.length_append, length_newLine]
  have hkeys : ∀ key ∈ savedKeys c before m allowed, key.required = false ∧ key.line ≤ (c.skip lines.length).line :=
    fun key hkey => ⟨savedKeys_required hkey hm, (savedKeys_line hkey).1 ▸ hline⟩
  cases isPlain with
  | true =>
    cases h with
    | plain hplain h =>
      have hmarks : k = 0 → ∀ mark ∈ ['-', '.'], rest.take 3 ≠ [mark, mark, mark] := fun _ => hrest.noMark
      have hink : ∀ x ∈ rest.head?, x ≠ ' ' ∧ isBreak x = false := fun x hx =>
        ⟨(hrest.ink x hx).1, (hrest.ink x hx).2.2.1⟩
      have hgap := PlainText.gap_newLine hafter hink hmarks
      have hless : (((c.skip lines.length).skip (k + 1)).column : Int) < m + 1 := by
        rw [hskip]
        dsimp only
        omega
      refine Step.of_leads (act_plain hplain h hn hpos hc hends (Int.le_of_lt hm) hgap (.inr (.inr hless))) rfl ?_
        ⟨_, arrives_here ?_ ?_ fun key hkey => ⟨savedKeys_required hkey hm, ?_⟩, .refl⟩
      · simp only [stand, hskip, hlength]
        omega
      · rw [hskip]
        exact hrest
      · rw [hskip]
      · rw [hskip, (savedKeys_line hkey).1]
        dsimp only
        omega
  | false =>
    refine Step.of_leads (act_quoted h hpos hc hends) rfl ?_ ⟨_, arrives_newLine hafter hrest hkeys, .refl⟩
    simp only [stand, hafter, hlength, List.length_append, length_newLine]
    omega

/-- At the colon the key is put in front of the node that turns out to be one. -/
theorem act_colon {k : PossibleKey} (t : Token) (hc : c.rest = ':' :: rest) (hsep : isSeparator rest.head? = true)
    (hflow : k.flowLevel = 0) (hplace : k.place = before.length) (hm : m ≤ k.column) :
    act { stand c (before ++ [t]) m outer false with possibleKeys := [k] } =
      .ok (stand c.next (before ++ opening m k.column .blockMappingStart ++ [.key, t, .value]) k.column
        (enclosing m k.column outer) false) := by
  obtain ⟨hhyphen, hpoint⟩ := atMarks_eq_false (hc ▸ begins_indicator (by simp) (head?_ne_hyphen hsep))
  have hfetch : fetchAt { stand c (before ++ [t]) m outer false with possibleKeys := [k] } ':' =
      fetchValue { stand c (before ++ [t]) m outer false with possibleKeys := [k] } := by
    simp [fetchAt, stand, hhyphen, hpoint, peekAt_one hc, hsep]
  have hkeys : [k].filter (·.flowLevel != 0) = [] := by simp [hflow]
  rw [act_eq hc, hfetch, fetchValue]
  simp only [stand, hflow, List.find?_cons_of_pos, beq_self_eq_true, hkeys, hplace, List.insertIdxIfInBounds_toArray,
    insertIdx_length]
  change Except.ok { ((stand c (before ++ [.key, t]) m outer false).indentTo k.column before.length
    .blockMappingStart).take 1 .value with keyAllowed := false } = _
  rw [indentTo_stand hm, take_stand]
  simp [stand, Cursor.skip]

/-- Where the key lies too far back, the colon is out of place. -/
theorem fetch_staleKey (before : List Token) (outer : List Int) {k : PossibleKey} (hc : c.rest = ':' :: rest)
    (hsep : isSeparator rest.head? = true) (hm : m ≤ c.column) (hindex : k.index + 1024 < c.index) :
    ∃ f, fetch { stand c before m outer false with possibleKeys := [k] } = .error f := by
  have hbegins : Begins c.rest := hc ▸ begins_indicator (by simp) (head?_ne_hyphen hsep)
  have hnext := toNextToken_spaces (l := { stand c before m outer false with possibleKeys := [k] }) (k := 0) rfl hbegins
  have hstale : k.isStale c = true := by simp [PossibleKey.isStale, hindex]
  by_cases hrequired : k.required = true
  · have hdrop : dropStaleKeys { stand c before m outer false with possibleKeys := [k] } = .error .malformed := by
      rw [dropStaleKeys, if_pos (by simp [stand, hstale, hrequired])]
    refine ⟨.malformed, ?_⟩
    rw [fetch, hnext]
    exact congrArg (· >>= _) hdrop
  · have hdrop : dropStaleKeys { stand c before m outer false with possibleKeys := [k] } =
        .ok (stand c before m outer false) := by
      rw [dropStaleKeys, if_neg (by simp [stand, hrequired])]
      simp [stand, hstale]
    have harrives : Arrives { stand c before m outer false with possibleKeys := [k] } (stand c before m outer false) :=
      ⟨_, by rw [hnext]; exact hdrop, unwind_stand_of_le hm⟩
    obtain ⟨hhyphen, hpoint⟩ := atMarks_eq_false hbegins
    refine ⟨.malformed, ?_⟩
    rw [fetch_of_arrives harrives, act_eq hc]
    simp [fetchAt, stand, hhyphen, hpoint, peekAt_one hc, hsep, fetchValue, inFlow]

/-- The scalar of a key is read, and the key waits in front of the colon. -/
theorem act_keyScalar {isPlain : Bool} (h : Layout n isPlain text lines) (hn : m + 1 ≤ n) (hpos : n ≠ 0)
    (hcolumns : ∀ x ∈ lines, TakesColumn x) (hc : c.rest = lines ++ ':' :: rest) (hsep : isSeparator rest.head? = true)
    (hm : m ≤ c.column) :
    (stand c before m outer true).act =
      .ok { stand (c.skip lines.length) (before ++ [.scalar isPlain (String.ofList text)]) m outer false with
        possibleKeys := [⟨0, before.length, decide (m = c.column), c.index, c.line, c.column⟩] } := by
  have hends : PlainText.EndsWord (':' :: rest) := .inr ⟨rest, rfl, hsep⟩
  have hskip := Cursor.skip_of_takesColumn hc hcolumns
  cases isPlain with
  | true =>
    cases h with
    | plain hplain h =>
      have hafter : (c.skip lines.length).rest = List.replicate 0 ' ' ++ ':' :: rest := by rw [hskip]; rfl
      have hgap := PlainText.gap_spaces hafter (by
        intro x hx
        cases hx
        decide)
      exact act_plain hplain h hn hpos hc hends hm hgap (.inl rfl)
  | false => exact act_quoted h hpos hc hends

/-- A key on its line, with the colon behind it. -/
theorem steps_key {isPlain : Bool} {s : Lexer} (h : Layout n isPlain text lines) (hn : m + 1 ≤ n) (hpos : n ≠ 0)
    (hcolumns : ∀ x ∈ lines, TakesColumn x) (hshort : lines.length ≤ 1024) (hc : c.rest = lines ++ ':' :: rest)
    (hsep : isSeparator rest.head? = true) (hm : m ≤ c.column)
    (hleads : Leads (stand (c.skip lines.length).next
      (before ++ opening m c.column .blockMappingStart ++ [.key, .scalar isPlain (String.ofList text), .value])
      c.column (enclosing m c.column outer) false) s) :
    Steps (stand c before m outer true) s := by
  have hskip := Cursor.skip_of_takesColumn hc hcolumns
  have hpositive := h.length_pos
  have hlength : c.rest.length = lines.length + (rest.length + 1) := by rw [hc, List.length_append, List.length_cons]
  have hact : (stand c before m outer true).act = _ := act_keyScalar h hn hpos hcolumns hc hsep hm
  have hafter : (c.skip lines.length).rest = ':' :: rest := by rw [hskip]
  have hcolumn : m ≤ (c.skip lines.length).column := by
    rw [hskip]
    dsimp only
    omega
  refine Step.of_leads hact rfl ?_ ⟨_, arrives_colon hafter hcolumn (by rw [hskip]) (by rw [hskip]; simpa using hshort),
    Step.of_leads (act_colon _ hafter hsep rfl rfl hm) rfl ?_ hleads⟩
  · simp only [stand, hafter, hlength, List.length_cons]
    omega
  · simp only [stand, Cursor.rest_next, hafter, List.length_cons, List.tail_cons]
    omega

/-- The lexer gets stuck at the colon of a key with too many characters. -/
theorem stuck_key {isPlain : Bool} (h : Layout n isPlain text lines) (hn : m + 1 ≤ n) (hpos : n ≠ 0)
    (hcolumns : ∀ x ∈ lines, TakesColumn x) (hlong : 1024 < lines.length) (hc : c.rest = lines ++ ':' :: rest)
    (hsep : isSeparator rest.head? = true) (hm : m ≤ c.column) (hbefore : .streamEnd ∉ before) :
    Stuck (stand c before m outer true) := by
  have hskip := Cursor.skip_of_takesColumn hc hcolumns
  have hlength : c.rest.length = lines.length + (rest.length + 1) := by rw [hc, List.length_append, List.length_cons]
  have hact : (stand c before m outer true).act = _ := act_keyScalar h hn hpos hcolumns hc hsep hm
  have hafter : (c.skip lines.length).rest = ':' :: rest := by rw [hskip]
  have hcolumn : m ≤ (c.skip lines.length).column := by
    rw [hskip]
    dsimp only
    omega
  obtain ⟨f, hfetch⟩ := fetch_staleKey (before ++ [.scalar isPlain (String.ofList text)]) outer
    (k := ⟨0, before.length, decide (m = c.column), c.index, c.line, c.column⟩) hafter hsep hcolumn
    (by rw [hskip]; simpa using hlong)
  refine ⟨_, f, hact, rfl, ?_, ?_, hfetch⟩
  · simp only [stand, hafter, hlength, List.length_cons]
    omega
  · simpa [stand] using hbefore

end

end Lexer

end TopologyConfig.Yaml
