import TopologyConfig.Proofs.Yaml.Chunks

/-!
Nodes as they are written. By induction on the node, its text is a chunk that is read as the node's tokens, if no key is too
long; a document is one chunk.
-/
namespace TopologyConfig.Yaml

open Lexer

namespace Node

/-- The node needs no tags: its scalars have none, its collections are the usual ones, and its keys are texts. -/
inductive IsBare : Node → Prop where
  | scalar (t : Tag) (text : String) (htext : IsUntagged false t text) : IsBare (scalar t text)
  | sequence (items : List Node) (hitems : ∀ x ∈ items, IsBare x) : IsBare (sequence .seq items)
  | mapping (es : List (Node × Node)) (hkeys : ∀ e ∈ es, ∃ s, e.1 = scalar .str s) (hvalues : ∀ e ∈ es, IsBare e.2) :
    IsBare (mapping .map es)

mutual

/-- The tokens of a node in a collection at column `m`, or behind a key on its line there. Behind such a key a sequence is
not indented. -/
def tokens (isKey keyed : Bool) (m : Nat) : Node → List Token
  | scalar t text => [.scalar (decide (form isKey t text = .plain)) (readText isKey (m + 2) t text)]
  | sequence _ items =>
    if items.isEmpty then [.flowSequenceStart, .flowSequenceEnd]
    else if keyed then itemTokens m items
    else .blockSequenceStart :: (itemTokens (m + 2) items ++ [.blockEnd])
  | mapping _ es =>
    if es.isEmpty then [.flowMappingStart, .flowMappingEnd]
    else .blockMappingStart :: (entryTokens (m + 2) es ++ [.blockEnd])

def itemTokens (n : Nat) : List Node → List Token
  | [] => []
  | x :: xs => .blockEntry :: (tokens false false n x ++ itemTokens n xs)

def entryTokens (n : Nat) : List (Node × Node) → List Token
  | [] => []
  | (k, v) :: es =>
    .key :: (tokens k.isSimpleKey false n k ++ .value :: (tokens false k.isSimpleKey n v ++ entryTokens n es))

end

/-- The tokens of a mapping with its entries at column `n`. -/
def mappingTokens (n : Nat) (es : List (Node × Node)) : List Token :=
  if es.isEmpty then [.flowMappingStart, .flowMappingEnd] else .blockMappingStart :: (entryTokens n es ++ [.blockEnd])

/-- A key on its line must not take more characters than the reader goes back. -/
def keyFits : Node → Bool
  | scalar t text => !(scalar t text).isSimpleKey || decide ((keyChars text).length ≤ 1024)
  | _ => true

mutual

/-- No key in the node is too long. -/
def keysFit : Node → Bool
  | scalar _ _ => true
  | sequence _ items => itemsFit items
  | mapping _ es => entriesFit es

def itemsFit : List Node → Bool
  | [] => true
  | x :: xs => keysFit x && itemsFit xs

def entriesFit : List (Node × Node) → Bool
  | [] => true
  | (k, v) :: es => keyFits k && keysFit v && entriesFit es

end

/-- The sheet behind an indicator at column `m`, or behind a key on its line. -/
structure StandsBehind (s : Sheet) (keyed : Bool) (m : Nat) : Prop where
  unspaced : s.spaced = false
  indenting : s.indenting = !keyed
  beyond : m < s.column
  column : keyed = false → s.column = m + 1

/-- Wherever the node stands, its text is read as its tokens. -/
def IsReadBack (keyed : Bool) (m : Nat) (x : Node) : Prop :=
  ∀ (s : Sheet) (inMapping : Bool), StandsBehind s keyed m → (keyed = true → inMapping = true) →
    ∃ cs, Sheet.Writes s (write (some m) inMapping false x s) cs ∧
      (write (some m) inMapping false x s).indenting = false ∧ Lexes keyed m cs x.keysFit (x.tokens false keyed m)

section

variable {keyed : Bool} {m n : Nat} {t : Tag} {text : String} {sep : List Char} {s : Sheet}

/-- The sheet at the beginning of an entry in column `n`, in front of which the given blanks are written. -/
def Starts (s : Sheet) (n : Nat) (sep : List Char) : Prop := s.indent n = ⟨sep.reverse ++ s.reversed, n, true, true⟩

theorem starts_newLine (h : s.indenting = false) (n : Nat) : Starts s n (newLine n) := Sheet.indent_newLine (.inl h)

theorem StandsBehind.starts (h : StandsBehind s keyed m) : Starts s (m + 2) (if keyed then newLine (m + 2) else [' ']) := by
  cases keyed with
  | true => exact starts_newLine h.indenting (m + 2)
  | false =>
    have hcolumn := h.column rfl
    rw [Starts, Sheet.indent_spaces h.indenting (by omega) (by omega), hcolumn, Nat.add_sub_add_left]
    rfl

theorem Starts.writes (h : Starts s n sep) : Sheet.Writes s (s.indent n) sep := by rw [Sheet.Writes, h]

/-- A mark at the beginning of an entry. -/
theorem Starts.indentWord (h : Starts s n sep) (x : Char) :
    Sheet.Writes s ((s.indent n).indentWord [x]) (sep ++ [x]) ∧ StandsBehind ((s.indent n).indentWord [x]) false n := by
  rw [h]
  exact ⟨by simp [Sheet.Writes, Sheet.indentWord, Sheet.word, Sheet.mark, Sheet.put], rfl, rfl, Nat.lt_succ_self n,
    fun _ => rfl⟩

theorem isReadBack_scalar (htext : IsUntagged false t text) : IsReadBack keyed m (scalar t text) := by
  intro s inMapping hs _
  have hcolumn : m + 2 ≤ s.column + 1 := Nat.succ_le_succ hs.beyond
  obtain ⟨lines, hwrites, hindenting, hlayout⟩ :=
    writeScalar_writes (n := m + 2) (s := s) htext fun _ => hcolumn
  have hlead : s.lead = [' '] := by rw [Sheet.lead, hs.unspaced]; rfl
  rw [hlead] at hwrites
  have hlexes := hlayout.lexes keyed
  rw [String.ofList_toList] at hlexes
  exact ⟨' ' :: lines, hwrites, hindenting, hlexes⟩

/-- The items of a sequence one below the other. -/
theorem writeItems_writes {items : List Node} (hne : items ≠ []) (h : ∀ x ∈ items, IsReadBack false n x)
    (hs : Starts s n sep) :
    ∃ cs, Sheet.Writes s (writeItems n items s) (sep ++ cs) ∧ (writeItems n items s).indenting = false ∧
      LexesEntries .blockSequenceStart n cs (itemsFit items) (itemTokens n items) := by
  induction items generalizing s sep with
  | nil => exact absurd rfl hne
  | cons x xs ih =>
    obtain ⟨hmark, hbehind⟩ := hs.indentWord '-'
    obtain ⟨cs, hwrites, hindenting, hlexes⟩ := h x List.mem_cons_self _ false hbehind (fun h => nomatch h)
    have hitem := hmark.trans hwrites
    rw [List.append_assoc] at hitem
    rw [writeItems, itemTokens, itemsFit]
    by_cases hxs : xs = []
    · subst hxs
      rw [itemTokens, itemsFit, List.append_nil, Bool.and_true]
      exact ⟨'-' :: cs, hitem, hindenting, hlexes.item⟩
    · obtain ⟨ds, hwrites', hindenting', hlexes'⟩ :=
        ih hxs (fun y hy => h y (List.mem_cons_of_mem x hy)) (starts_newLine hindenting n)
      refine ⟨'-' :: cs ++ (newLine n ++ ds), ?_, hindenting', hlexes.item.append hlexes'⟩
      have hall := hitem.trans hwrites'
      rwa [List.append_assoc] at hall

/-- An entry, under a key on its line or under one with a line of its own. -/
theorem writeEntry_writes {v : Node} (hvalue : IsReadBack (scalar .str text).isSimpleKey n v) (hs : Starts s n sep) :
    ∃ cs, Sheet.Writes s (writeEntries n [(scalar .str text, v)] s) (sep ++ cs) ∧
      (writeEntries n [(scalar .str text, v)] s).indenting = false ∧
      LexesEntries .blockMappingStart n cs (keyFits (scalar .str text) && keysFit v)
        (entryTokens n [(scalar .str text, v)]) := by
  rw [writeEntries, writeEntries, entryTokens, entryTokens, List.append_nil, keyFits]
  cases hsimple : (scalar .str text).isSimpleKey with
  | true =>
    rw [hsimple] at hvalue
    have hspaced : (s.indent n).spaced = true := by rw [hs]
    obtain ⟨hwrites, hcolumn, -⟩ := writeKey_writes (n := n + 2) hsimple hspaced
    have hbeyond : n < ((writeScalar true (n + 2) .str text (s.indent n)).mark [':']).column := by
      rw [hs] at hcolumn ⊢
      exact Nat.lt_succ_of_le hcolumn
    obtain ⟨cs, hwrites', hindenting, hlexes⟩ :=
      hvalue ((writeScalar true (n + 2) .str text (s.indent n)).mark [':']) true ⟨rfl, rfl, hbeyond, fun h => nomatch h⟩
        fun _ => rfl
    have hall := (hs.writes.trans hwrites).trans ((Sheet.writes_mark _ [':']).trans hwrites')
    rw [List.append_assoc] at hall
    rw [tokens, readText_key hsimple]
    exact ⟨_, hall, hindenting, hlexes.entry hsimple⟩
  | false =>
    rw [hsimple] at hvalue
    obtain ⟨hmark, hbehind⟩ := hs.indentWord '?'
    have hkeyText : IsReadBack false n (scalar .str text) := isReadBack_scalar (.inl rfl)
    obtain ⟨ds, hwritesKey, hindentingKey, hlexesKey⟩ := hkeyText _ true hbehind (fun h => nomatch h)
    obtain ⟨hcolon, hbehind'⟩ := (starts_newLine hindentingKey n).indentWord ':'
    obtain ⟨cs, hwrites, hindenting, hlexes⟩ := hvalue _ true hbehind' (fun h => nomatch h)
    have hall := (hmark.trans hwritesKey).trans (hcolon.trans hwrites)
    simp only [List.append_assoc] at hall
    exact ⟨_, hall, hindenting, hlexes.longEntry hlexesKey⟩

/-- The entries of a mapping one below the other. -/
theorem writeEntries_writes {es : List (Node × Node)} (hne : es ≠ []) (hkeys : ∀ e ∈ es, ∃ s, e.1 = scalar .str s)
    (hvalues : ∀ e ∈ es, IsReadBack e.1.isSimpleKey n e.2) (hs : Starts s n sep) :
    ∃ cs, Sheet.Writes s (writeEntries n es s) (sep ++ cs) ∧ (writeEntries n es s).indenting = false ∧
      LexesEntries .blockMappingStart n cs (entriesFit es) (entryTokens n es) := by
  induction es generalizing s sep with
  | nil => exact absurd rfl hne
  | cons e es ih =>
    obtain ⟨k, v⟩ := e
    obtain ⟨⟨text, hk⟩, hkeys'⟩ := List.forall_mem_cons.mp hkeys
    obtain ⟨hvalue, hvalues'⟩ := List.forall_mem_cons.mp hvalues
    dsimp only at hk
    subst hk
    obtain ⟨cs, hentry, hindenting, hlexes⟩ := writeEntry_writes hvalue hs
    rw [entriesFit]
    by_cases hes : es = []
    · subst hes
      rw [entriesFit, Bool.and_true]
      exact ⟨cs, hentry, hindenting, hlexes⟩
    · obtain ⟨ds, hwrites', hindenting', hlexes'⟩ := ih hes hkeys' hvalues' (starts_newLine hindenting n)
      have hall := hentry.trans hwrites'
      rw [List.append_assoc] at hall
      have happend := hlexes.append hlexes'
      rw [entryTokens, entryTokens, List.append_nil] at happend
      refine ⟨cs ++ (newLine n ++ ds), hall, hindenting', ?_⟩
      rw [entryTokens]
      simpa using happend

/-- A node without tags is read back wherever it stands. -/
theorem IsBare.isReadBack {x : Node} (h : x.IsBare) : ∀ keyed m, IsReadBack keyed m x := by
  induction h with
  | scalar t text htext => exact fun keyed m => isReadBack_scalar htext
  | sequence items hitems ih =>
    intro keyed m s inMapping hs hmapping
    rw [write, tokens, keysFit]
    by_cases hempty : items.isEmpty = true
    · obtain rfl := List.isEmpty_iff.mp hempty
      have hwrites := (s.word_writes ['[']).trans (Sheet.writes_mark (s.word ['[']) [']'])
      rw [Sheet.lead, hs.unspaced] at hwrites
      exact ⟨_, hwrites, rfl, lexes_empty (by simp [flowMarks]) keyed⟩
    · have hne : items ≠ [] := fun he => hempty (he ▸ rfl)
      rw [if_neg hempty, if_neg hempty]
      cases keyed with
      | true =>
        have hindentless : (inMapping && !s.indenting) = true := by rw [hmapping rfl, hs.indenting]; rfl
        obtain ⟨cs, hwrites, hindenting, hlexes⟩ :=
          writeItems_writes hne (fun x hx => ih x hx false m) (starts_newLine hs.indenting m)
        rw [if_pos hindentless, if_pos rfl]
        exact ⟨_, hwrites, hindenting, hlexes.indentless⟩
      | false =>
        have hindented : ¬ (inMapping && !s.indenting) = true := by rw [hs.indenting]; simp
        obtain ⟨cs, hwrites, hindenting, hlexes⟩ := writeItems_writes hne (fun x hx => ih x hx false (m + 2)) hs.starts
        rw [if_neg hindented, if_neg Bool.false_ne_true]
        exact ⟨_, hwrites, hindenting, hlexes.lexes false⟩
  | mapping es hkeys hvalues ih =>
    intro keyed m s inMapping hs hmapping
    rw [write, if_pos rfl, tokens, keysFit]
    by_cases hempty : es.isEmpty = true
    · obtain rfl := List.isEmpty_iff.mp hempty
      have hwrites := (s.word_writes ['\x7b']).trans (Sheet.writes_mark (s.word ['\x7b']) ['\x7d'])
      rw [Sheet.lead, hs.unspaced] at hwrites
      exact ⟨_, hwrites, rfl, lexes_empty (by simp [flowMarks]) keyed⟩
    · have hne : es ≠ [] := fun he => hempty (he ▸ rfl)
      obtain ⟨cs, hwrites, hindenting, hlexes⟩ :=
        writeEntries_writes hne hkeys (fun e he => ih e he e.1.isSimpleKey (m + 2)) hs.starts
      rw [if_neg hempty, if_neg hempty]
      exact ⟨_, hwrites, hindenting, hlexes.lexes keyed⟩

end

end Node

/-! Documents. -/

/-- In front of a text the lexer comes to stand where the steps lead. -/
theorem Lexer.leads_start {text : List Char} {s : Lexer} (hbegins : Begins text)
    (hsteps : Steps (stand (Cursor.start text) [] (-1) [] true) s) :
    Leads (stand (Cursor.start text) [] (-1) [] true) s := by
  have harrives : Arrives (stand (Cursor.start text) [] (-1) [] true) _ :=
    @arrives_here (Cursor.start text) [] (-1) [] true 0 [] hbegins rfl (by simp)
  rw [unwind_stand_of_le (by omega)] at harrives
  exact ⟨_, harrives, hsteps⟩

/-- A text is read up to where the lexer says that it ends. -/
theorem TokenStream.ofText_of_steps {text : List Char} {s l : Lexer} (hbegins : Begins text)
    (hsteps : Steps (stand (Cursor.start text) [] (-1) [] true) s) (hact : s.act = .ok l) (hfinished : l.finished = true) :
    TokenStream.ofText text = ⟨l.tokens.toList, none⟩ := by
  obtain ⟨l', fuel, harrives', hunfinished, hfuel, hread⟩ :=
    (leads_start hbegins hsteps).readFrom rfl (Nat.le_refl (text.length + 2))
  obtain ⟨fuel, rfl⟩ := Nat.exists_eq_add_of_le' (Nat.le_of_add_left_le hfuel)
  have hlast : TokenStream.readFrom (fuel + 2) l' = ⟨l.tokens.toList, none⟩ := by
    rw [TokenStream.readFrom, hunfinished, fetch_of_arrives harrives', hact]
    dsimp only
    rw [TokenStream.readFrom, hfinished]
    rfl
  exact hread.trans hlast

/-- At the end of a text the collection ends. -/
theorem Lexer.act_end {c : Cursor} {before : List Token} (hc : c.rest = []) :
    ∃ l, (stand c before 0 [-1] true).act = .ok l ∧ l.finished = true ∧
      l.tokens.toList = before ++ [.blockEnd, .streamEnd] := by
  have hpeek : (stand c before 0 [-1] true).cursor.peek = none := by rw [Cursor.peek, stand, hc, List.head?_nil]
  have hunwind : (stand c before 0 [-1] true).unwind (-1) = stand c (before ++ [.blockEnd]) (-1) [] true := by
    rw [unwind_stand_of_lt (by decide), unwind_stand_of_le (by decide)]
  rw [act, hpeek]
  dsimp only
  rw [fetchStreamEnd, hunwind]
  refine ⟨_, rfl, rfl, ?_⟩
  simp [push, stand]

namespace Node

/-- The text of a mapping on a line of its own. -/
def documentText (es : List (Node × Node)) : List Char :=
  ((write none false false (mapping .map es) {}).indent 0).text.toList

/-- The text of a document is one chunk in front of the end of its line. -/
theorem documentText_lexes {es : List (Node × Node)} (hes : es ≠ []) (h : (mapping .map es).IsBare) :
    ∃ cs, documentText es = cs ++ (newLine 0 ++ []) ∧
      LexesEntries .blockMappingStart 0 cs (entriesFit es) (entryTokens 0 es) := by
  have hstarts : Starts {} 0 [] := rfl
  have hempty : ¬ es.isEmpty = true := by simpa using hes
  cases h with
  | mapping _ hkeys hvalues =>
    obtain ⟨cs, hwrites, hindenting, hlexes⟩ :=
      writeEntries_writes hes hkeys (fun e he => (hvalues e he).isReadBack e.1.isSimpleKey 0) hstarts
    have hend := starts_newLine hindenting 0
    refine ⟨cs, ?_, hlexes⟩
    rw [documentText, write, if_pos rfl, if_neg hempty, inner, hend, Sheet.text, hwrites]
    simp

theorem ofText_documentText {es : List (Node × Node)} (h : (mapping .map es).IsBare) (hfits : entriesFit es = true) :
    TokenStream.ofText (documentText es) = ⟨mappingTokens 0 es ++ [.streamEnd], none⟩ := by
  by_cases hes : es = []
  · subst hes
    rfl
  · obtain ⟨cs, hdocument, hlexes⟩ := documentText_lexes hes h
    rw [hfits] at hlexes
    obtain ⟨s, hsteps, c, hrest, hcolumn, rfl⟩ := hlexes.steps (Cursor.start (documentText es)) [] (-1) [] 0 [] (by simp) rfl
      hdocument ⟨by simp, by simp⟩ (Nat.le_refl 0) (by decide)
    rw [unwind_stand_of_le (Int.le_refl _)] at hsteps
    obtain ⟨l, hact, hfinished, htokens⟩ := act_end hrest
    have hread := TokenStream.ofText_of_steps (hdocument ▸ hlexes.begins 0 []) hsteps hact hfinished
    have hopening : opening (-1) 0 .blockMappingStart = [.blockMappingStart] := rfl
    rw [hread, htokens, hopening, mappingTokens, if_neg (by simpa using hes)]
    simp

/-- With a key that is too long the tokens have no end. -/
theorem streamEnd_not_mem_ofText {es : List (Node × Node)} (h : (mapping .map es).IsBare) (hlong : entriesFit es = false) :
    .streamEnd ∉ (TokenStream.ofText (documentText es)).tokens := by
  have hes : es ≠ [] := by
    rintro rfl
    cases hlong
  obtain ⟨cs, hdocument, hlexes⟩ := documentText_lexes hes h
  rw [hlong] at hlexes
  obtain ⟨s, hsteps, hstuck⟩ := hlexes.steps (Cursor.start (documentText es)) [] (-1) [] 0 [] (by simp) rfl
    hdocument ⟨by simp, by simp⟩ (Nat.le_refl 0) (by decide)
  exact (leads_start (hdocument ▸ hlexes.begins 0 []) hsteps).streamEnd_not_mem hstuck rfl (Nat.le_refl _)

end Node

end TopologyConfig.Yaml
