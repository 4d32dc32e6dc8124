import TopologyConfig.Proofs.Yaml.Fetch

/-!
Chunks of a YAML text. A chunk is read as its tokens wherever it stands: a node in front of a line break, with the blanks
that separate it, and the entries of a collection one below the other. With a key that is too long the lexer gets stuck.
-/
namespace TopologyConfig.Yaml

open Lexer

/-- The lexer stands behind the line break at column `k`, or gets stuck before. -/
def Comes (fits : Bool) (before : List Token) (m : Int) (outer : List Int) (k : Nat) (rest : List Char) (s : Lexer) :
    Prop :=
  if fits then ∃ c : Cursor, c.rest = rest ∧ c.column = k ∧ s = (stand c before m outer true).unwind k else Stuck s

/-- A node behind an indicator at column `m`, or behind a key on its line. -/
structure Lexes (keyed : Bool) (m : Nat) (cs : List Char) (fits : Bool) (ts : List Token) : Prop where
  separated : isSeparator cs.head? = true ∧ cs ≠ []
  unended : .streamEnd ∉ ts
  leads : ∀ (c : Cursor) (before : List Token) (outer : List Int) (k : Nat) (rest : List Char), .streamEnd ∉ before →
    c.rest = cs ++ (newLine k ++ rest) → Begins rest → k ≤ m → m < c.column → (keyed = false → c.column = m + 1) →
    ∃ s, Leads (stand c before m outer (!keyed)) s ∧ Comes fits (before ++ ts) m outer k rest s

/-- Entries of a block collection at column `n`, which the given token opens. -/
structure LexesEntries (start : Token) (n : Nat) (cs : List Char) (fits : Bool) (ts : List Token) : Prop where
  begins : ∀ (k : Nat) (rest : List Char), Begins (cs ++ (newLine k ++ rest))
  unended : .streamEnd ∉ start :: ts
  steps : ∀ (c : Cursor) (before : List Token) (m : Int) (outer : List Int) (k : Nat) (rest : List Char),
    .streamEnd ∉ before → c.column = n → c.rest = cs ++ (newLine k ++ rest) → Begins rest → k ≤ n → m ≤ n →
    ∃ s, Steps (stand c before m outer true) s ∧
      Comes fits (before ++ opening m n start ++ ts) n (enclosing m n outer) k rest s

section

variable {keyed fits fits' : Bool} {m n : Nat} {cs ds : List Char} {ts us : List Token} {start : Token}

theorem Comes.of_cursor {before : List Token} {m : Int} {outer : List Int} {c : Cursor} {k : Nat} {rest : List Char}
    (hrest : c.rest = rest) (hcolumn : c.column = k) :
    Comes true before m outer k rest ((stand c before m outer true).unwind k) := ⟨c, hrest, hcolumn, rfl⟩

theorem unended_append {before : List Token} (h : .streamEnd ∉ before) (hts : .streamEnd ∉ ts) :
    .streamEnd ∉ before ++ ts := by
  rw [List.mem_append, not_or]
  exact ⟨h, hts⟩

theorem unended_opening {before : List Token} (h : .streamEnd ∉ before) (hstart : start ≠ .streamEnd) (m : Int) (n : Nat) :
    .streamEnd ∉ before ++ opening m n start := by
  refine unended_append h ?_
  unfold opening
  split
  · simpa using hstart.symm
  · simp

theorem Lexes.isSeparator_append (h : Lexes keyed m cs fits ts) (rest : List Char) :
    isSeparator (cs ++ rest).head? = true := by
  obtain ⟨hsep, hne⟩ := h.separated
  obtain ⟨x, cs, rfl⟩ := List.exists_cons_of_ne_nil hne
  exact hsep

theorem LexesEntries.start_ne (h : LexesEntries start n cs fits ts) : start ≠ .streamEnd :=
  fun he => h.unended (he ▸ List.mem_cons_self)

/-- Entries one below the other. -/
theorem LexesEntries.append (h : LexesEntries start n cs fits ts) (h' : LexesEntries start n ds fits' us) :
    LexesEntries start n (cs ++ (newLine n ++ ds)) (fits && fits') (ts ++ us) := by
  refine ⟨fun k rest => ?_, unended_append h.unended fun hmem => h'.unended (List.mem_cons_of_mem _ hmem), ?_⟩
  · rw [List.append_assoc, List.append_assoc]
    exact h.begins n (ds ++ (newLine k ++ rest))
  · intro c before m outer k rest hbefore hcolumn hc hrest hk hm
    rw [List.append_assoc, List.append_assoc] at hc
    obtain ⟨s₁, hsteps₁, hcomes₁⟩ :=
      h.steps c before m outer n _ hbefore hcolumn hc (h'.begins k rest) (Nat.le_refl n) hm
    cases fits with
    | false => exact ⟨s₁, hsteps₁, hcomes₁⟩
    | true =>
      obtain ⟨c₁, hrest₁, hcolumn₁, rfl⟩ := hcomes₁
      rw [unwind_stand_of_le (Int.le_refl n)] at hsteps₁
      have hbefore₁ := unended_append (unended_opening hbefore h.start_ne m n) fun hmem =>
        h.unended (List.mem_cons_of_mem _ hmem)
      obtain ⟨s₂, hsteps₂, hcomes₂⟩ := h'.steps c₁ (before ++ opening m n start ++ ts) n (enclosing m n outer) k rest
        hbefore₁ hcolumn₁ hrest₁ hrest hk (Int.le_refl n)
      have hopen : opening n n start = [] := if_neg (Int.lt_irrefl _)
      have henclose : enclosing n n (enclosing m n outer) = enclosing m n outer := if_neg (Int.lt_irrefl _)
      rw [hopen, henclose, List.append_nil, List.append_assoc (before ++ opening m n start)] at hcomes₂
      exact ⟨s₂, hsteps₁.trans hsteps₂, hcomes₂⟩

/-- A collection that is indented further. -/
theorem LexesEntries.lexes (h : LexesEntries start (m + 2) cs fits ts) (keyed : Bool) :
    Lexes keyed m ((if keyed then newLine (m + 2) else [' ']) ++ cs) fits (start :: (ts ++ [.blockEnd])) := by
  refine ⟨?_, unended_append h.unended (by simp), ?_⟩
  · cases keyed
    · exact ⟨rfl, List.cons_ne_nil _ _⟩
    · exact ⟨rfl, List.cons_ne_nil _ _⟩
  · intro c before outer k rest hbefore hc hrest hk hm hcolumn
    rw [List.append_assoc] at hc
    have hbegins := h.begins k rest
    -- Behind the separator the collection opens.
    have harrives : ∃ c₁ : Cursor, c₁.rest = cs ++ (newLine k ++ rest) ∧ c₁.column = m + 2 ∧
        Arrives (stand c before m outer (!keyed)) (stand c₁ before m outer true) := by
      cases keyed with
      | false =>
        have hspace : c.rest = List.replicate 1 ' ' ++ (cs ++ (newLine k ++ rest)) := hc
        have hskip := Cursor.skip_spaces hspace
        refine ⟨c.skip 1, by rw [hskip], by rw [hskip, hcolumn rfl], arrives_spaces hspace hbegins (by omega)⟩
      | true =>
        have hskip := Cursor.skip_newLine hc
        have harrives : Arrives (stand c before m outer false) _ := arrives_nextLine hc hbegins
        rw [unwind_stand_of_le (by omega)] at harrives
        exact ⟨c.skip (m + 2 + 1), by rw [hskip], by rw [hskip], harrives⟩
    obtain ⟨c₁, hrest₁, hcolumn₁, harrives⟩ := harrives
    obtain ⟨s, hsteps, hcomes⟩ :=
      h.steps c₁ before m outer k rest hbefore hcolumn₁ hrest₁ hrest (by omega) (by omega)
    refine ⟨s, ⟨_, harrives, hsteps⟩, ?_⟩
    cases fits with
    | false => exact hcomes
    | true =>
      obtain ⟨c₂, hrest₂, hcolumn₂, rfl⟩ := hcomes
      have hless : (m : Int) < (m + 2 : Nat) := by omega
      rw [opening, enclosing, if_pos hless, if_pos hless, unwind_stand_of_lt (by omega)]
      simpa using Comes.of_cursor hrest₂ hcolumn₂

/-- A sequence that stands below its key without further indentation. -/
theorem LexesEntries.indentless (h : LexesEntries start m cs fits ts) : Lexes true m (newLine m ++ cs) fits ts := by
  refine ⟨⟨rfl, List.cons_ne_nil _ _⟩, fun hmem => h.unended (List.mem_cons_of_mem _ hmem), ?_⟩
  intro c before outer k rest hbefore hc hrest hk hm _
  rw [List.append_assoc] at hc
  have hskip := Cursor.skip_newLine hc
  have harrives : Arrives (stand c before m outer false) _ := arrives_nextLine hc (h.begins k rest)
  rw [unwind_stand_of_le (Int.le_refl _)] at harrives
  obtain ⟨s, hsteps, hcomes⟩ := h.steps (c.skip (m + 1)) before m outer k rest hbefore (by rw [hskip]) (by rw [hskip])
    hrest hk (Int.le_refl _)
  have hopen : opening m m start = [] := if_neg (Int.lt_irrefl _)
  have henclose : enclosing m m outer = outer := if_neg (Int.lt_irrefl _)
  rw [hopen, henclose, List.append_nil] at hcomes
  exact ⟨s, ⟨_, harrives, hsteps⟩, hcomes⟩

/-- A scalar behind a space. -/
theorem Layout.lexes {isPlain : Bool} {text : List Char} (h : Layout (m + 2) isPlain text cs) (keyed : Bool) :
    Lexes keyed m (' ' :: cs) true [.scalar isPlain (String.ofList text)] := by
  refine ⟨⟨rfl, List.cons_ne_nil _ _⟩, by simp, ?_⟩
  intro c before outer k rest _ hc hrest hk hm _
  have hspace : c.rest = List.replicate 1 ' ' ++ (cs ++ (newLine k ++ rest)) := hc
  have hskip := Cursor.skip_spaces hspace
  have hbegins : Begins (cs ++ (newLine k ++ rest)) := h.begins (.inl rfl)
  have hscalar : (c.skip 1).rest = cs ++ (newLine k ++ rest) := by rw [hskip]
  have hafter := Cursor.skip_newLine (Cursor.rest_skip_append hscalar rfl)
  have hcolumn : (m : Int) < (c.skip 1).column := by
    rw [hskip]
    dsimp only
    omega
  refine ⟨_, ⟨stand (c.skip 1) before m outer (!keyed), arrives_spaces hspace hbegins (by omega),
    steps_scalar h (by omega) (by omega) hscalar hrest (by omega) hcolumn⟩, Comes.of_cursor ?_ ?_⟩
  · rw [hafter]
  · rw [hafter]

/-- A collection without items. -/
theorem lexes_empty {x y : Char} {t u : Token} (h : (x, y, t, u) ∈ flowMarks) (keyed : Bool) :
    Lexes keyed m [' ', x, y] true [t, u] := by
  refine ⟨⟨rfl, List.cons_ne_nil _ _⟩, ?_, ?_⟩
  · rcases flowMarks_cases h with ⟨-, -, rfl, rfl⟩ | ⟨-, -, rfl, rfl⟩ <;> simp
  intro c before outer k rest _ hc hrest hk hm _
  have hspace : c.rest = List.replicate 1 ' ' ++ (x :: y :: (newLine k ++ rest)) := hc
  have hskip := Cursor.skip_spaces hspace
  have hbegins : Begins (x :: y :: (newLine k ++ rest)) := by
    rcases flowMarks_cases h with ⟨rfl, rfl, -⟩ | ⟨rfl, rfl, -⟩ <;> exact begins_indicator (by simp) (by simp)
  have hmarks : (c.skip 1).rest = x :: y :: (newLine k ++ rest) := by rw [hskip]
  have hafter : ((c.skip 1).skip 2).rest = newLine k ++ rest := by
    rw [Cursor.rest_skip, hmarks]
    rfl
  have hend := Cursor.skip_newLine hafter
  have hcolumn : (m : Int) < (c.skip 1).column := by
    rw [hskip]
    dsimp only
    omega
  refine ⟨_, ⟨stand (c.skip 1) before m outer (!keyed), arrives_spaces hspace hbegins (by omega),
    steps_empty h hmarks hrest hcolumn⟩, Comes.of_cursor ?_ ?_⟩
  · rw [hend]
  · rw [hend]

/-- An item of a sequence. -/
theorem Lexes.item (h : Lexes false n cs fits ts) :
    LexesEntries .blockSequenceStart n ('-' :: cs) fits (.blockEntry :: ts) := by
  have hsep := h.isSeparator_append
  refine ⟨fun k rest => begins_indicator (by simp) (head?_ne_hyphen (hsep _)), by simpa using h.unended, ?_⟩
  intro c before m outer k rest hbefore hcolumn hc hrest hk hm
  rw [List.cons_append] at hc
  have hnext := Cursor.next_of_takesColumn hc ⟨rfl, by decide⟩
  have hopened : Token.streamEnd ∉ before ++ opening m n .blockSequenceStart := unended_opening hbefore (by simp) m n
  obtain ⟨s, hleads, hcomes⟩ := h.leads c.next (before ++ opening m n .blockSequenceStart ++ [.blockEntry])
    (enclosing m n outer) k rest (unended_append hopened (by simp)) (by rw [hnext]) hrest hk
    (by rw [hnext]; dsimp only; omega) (fun _ => by rw [hnext, hcolumn])
  subst hcolumn
  refine ⟨s, Step.of_leads (act_entry hc (hsep _) hm) rfl ?_ ?_, by simpa using hcomes⟩
  · simp only [stand, hnext, hc, List.length_cons]
    omega
  · simpa using hleads

/-- An entry under a key on its line. -/
theorem Lexes.entry {text : String} (h : Lexes true n cs fits ts) (hsimple : (Node.scalar .str text).isSimpleKey = true) :
    LexesEntries .blockMappingStart n (keyChars text ++ ':' :: cs) (decide ((keyChars text).length ≤ 1024) && fits)
      (.key :: .scalar (decide (Node.form true .str text = .plain)) text :: .value :: ts) := by
  have hsep := h.isSeparator_append
  have hkey : Layout (n + 2) (decide (Node.form true .str text = .plain)) text.toList (keyChars text) :=
    (Node.writeKey_writes (s := {}) hsimple rfl).2.2
  have hcolumns := Node.takesColumn_keyChars hsimple
  refine ⟨fun k rest => ?_, by simpa using h.unended, ?_⟩
  · rw [List.append_assoc]
    exact hkey.begins (.inr ⟨_, rfl, hsep _⟩)
  · intro c before m outer k rest hbefore hcolumn hc hrest hk hm
    rw [List.append_assoc, List.cons_append] at hc
    by_cases hshort : (keyChars text).length ≤ 1024
    · have hskip := Cursor.skip_of_takesColumn hc hcolumns
      have hcolon : (c.skip (keyChars text).length).rest = ':' :: (cs ++ (newLine k ++ rest)) := by rw [hskip]
      have hnext := Cursor.next_of_takesColumn hcolon ⟨rfl, by decide⟩
      have hbeyond : n < (c.skip (keyChars text).length).next.column := by
        rw [hnext, hskip]
        dsimp only
        omega
      have hopened : Token.streamEnd ∉ before ++ opening m n .blockMappingStart := unended_opening hbefore (by simp) m n
      obtain ⟨s, hleads, hcomes⟩ := h.leads (c.skip (keyChars text).length).next
        (before ++ opening m n .blockMappingStart ++ [.key, .scalar (decide (Node.form true .str text = .plain)) text, .value])
        (enclosing m n outer) k rest (unended_append hopened (by simp)) (by rw [hnext]) hrest hk hbeyond
        (fun h => nomatch h)
      subst hcolumn
      refine ⟨s, steps_key hkey (by omega) (by omega) hcolumns hshort hc (hsep _) hm ?_, ?_⟩
      · simpa using hleads
      · simpa [hshort] using hcomes
    · subst hcolumn
      refine ⟨_, .refl, ?_⟩
      rw [Comes, if_neg (by simp [hshort])]
      exact stuck_key hkey (by omega) (by omega) hcolumns (Nat.lt_of_not_le hshort) hc (hsep _) hm hbefore

/-- An entry under a key with a line of its own. -/
theorem Lexes.longEntry (h : Lexes false n cs fits ts) (hkey : Lexes false n ds true us) :
    LexesEntries .blockMappingStart n ('?' :: (ds ++ (newLine n ++ ':' :: cs))) fits (.key :: (us ++ .value :: ts)) := by
  have hsep := h.isSeparator_append
  have hsepKey := hkey.isSeparator_append
  refine ⟨fun k rest => ?_, by simpa using ⟨hkey.unended, h.unended⟩, ?_⟩
  · rw [List.cons_append, List.append_assoc]
    exact begins_indicator (by simp) (head?_ne_hyphen (hsepKey _))
  · intro c before m outer k rest hbefore hcolumn hc hrest hk hm
    rw [List.cons_append, List.append_assoc, List.append_assoc, List.cons_append] at hc
    have hnext := Cursor.next_of_takesColumn hc ⟨rfl, by decide⟩
    have hopened : Token.streamEnd ∉ before ++ opening m n .blockMappingStart := unended_opening hbefore (by simp) m n
    have hkeyed : Token.streamEnd ∉ before ++ opening m n .blockMappingStart ++ [.key] := unended_append hopened (by simp)
    -- The key, and the line of the value.
    have hvalue : Begins (':' :: (cs ++ (newLine k ++ rest))) := begins_indicator (by simp) (head?_ne_hyphen (hsep _))
    obtain ⟨s₁, hleads₁, c₁, hrest₁, hcolumn₁, rfl⟩ := hkey.leads c.next
      (before ++ opening m n .blockMappingStart ++ [.key]) (enclosing m n outer) n _ hkeyed (by rw [hnext]) hvalue
      (Nat.le_refl n) (by rw [hnext]; dsimp only; omega) (fun _ => by rw [hnext, hcolumn])
    rw [unwind_stand_of_le (Int.le_refl n)] at hleads₁
    have hnext₁ := Cursor.next_of_takesColumn hrest₁ ⟨rfl, by decide⟩
    obtain ⟨s₂, hleads₂, hcomes₂⟩ := h.leads c₁.next
      (before ++ opening m n .blockMappingStart ++ [.key] ++ us ++ [.value]) (enclosing m n outer) k rest
      (unended_append (unended_append hkeyed hkey.unended) (by simp))
      (by rw [hnext₁]) hrest hk (by rw [hnext₁]; dsimp only; omega) (fun _ => by rw [hnext₁, hcolumn₁])
    have hless : c₁.next.rest.length < c₁.rest.length := by
      rw [hnext₁, hrest₁]
      exact Nat.lt_succ_self _
    have hleads := hleads₁.trans (Step.of_leads (act_value hrest₁ (hsep _) (by rw [hcolumn₁])) rfl hless hleads₂)
    subst hcolumn
    refine ⟨s₂, Step.of_leads (act_key hc (hsepKey _) hm) rfl ?_ ?_, by simpa using hcomes₂⟩
    · simp only [stand, hnext, hc, List.length_cons]
      omega
    · simpa using hleads

end

end TopologyConfig.Yaml
