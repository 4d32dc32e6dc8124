import TopologyConfig.Proofs.Yaml.Layout

/-!
Scalars as they are written: plain or between quotes, as values on one line or several, and as keys on one line. What a
text is read back as, and which texts are given back, follows from the lines that they are written in.
-/
namespace TopologyConfig.Yaml

open TextForms (IsPlain IsSingle isSpecial isWrittenBreak)

/-- What is read and the scalar as it is written, further lines being indented to `n`; the first argument tells whether it
is plain. -/
inductive Layout (n : Nat) : Bool → List Char → List Char → Prop where
  | plain {text lines : List Char} (hplain : IsPlain text) (h : PlainLines n text lines) : Layout n true text lines
  | single {text lines : List Char} (h : SingleLines n text lines) : Layout n false text ('\'' :: (lines ++ ['\'']))
  | double {text lines : List Char} (h : DoubleLines n text lines) : Layout n false text ('"' :: (lines ++ ['"']))

/-- What a scalar is read back as, if its further lines are indented to `n`. -/
def Node.readText (isKey : Bool) (n : Nat) (t : Tag) (text : String) : String :=
  match Node.form isKey t text with
  | .single => String.ofList ((runs spaceClass text.toList).flatMap Sheet.readRun)
  | .double => String.ofList (Sheet.readDouble (!isKey && decide (Sheet.margin ≤ n)) text.toList)
  | _ => text

/-- A text is given back from lines that are indented to `n`: between single quotes the line break U+0085 is lost, and
beyond the margin a space after an escape gains a backslash. -/
def keepsText (n : Nat) (s : String) : Bool :=
  match Node.form false .str s with
  | .single => !s.toList.contains '\x85'
  | .double => decide (n < Sheet.margin) || !Sheet.hasEscapeSpace (s.toList.drop 1)
  | _ => true

/-- The text is read back as it is exactly if it is kept. -/
theorem Node.readText_eq_iff {n : Nat} {s : String} : readText false n .str s = s ↔ keepsText n s = true := by
  unfold readText keepsText
  cases hform : form false .str s with
  | plain => simp
  | block => simp
  | single =>
    have hruns := Sheet.readRuns_eq_iff (runsOf_runs spaceClass s.toList)
    simp only [← String.toList_inj, String.toList_ofList]
    simpa using hruns
  | double =>
    simp only [← String.toList_inj, String.toList_ofList]
    cases s.toList with
    | nil => simp [Sheet.readDouble, Sheet.hasEscapeSpace]
    | cons c cs =>
      by_cases hn : Sheet.margin ≤ n
      · simp [Sheet.readDouble, hn, Sheet.readShown_eq_iff, Nat.not_lt.mpr hn]
      · simp [Sheet.readDouble, hn, Sheet.readShown_false, Nat.lt_of_not_le hn]

/-- The characters of a key that is written on one line. -/
def keyChars (s : String) : List Char :=
  match Node.form true .str s with
  | .plain => s.toList
  | .single => '\'' :: (s.toList.flatMap Sheet.doubled ++ ['\''])
  | .double => '"' :: (s.toList.flatMap Sheet.shown ++ ['"'])
  | .block => []

namespace Sheet

variable {s : Sheet} {cs : List Char} {n : Nat}

/-- The space in front of what is written next. -/
def lead (s : Sheet) : List Char := if s.spaced then [] else [' ']

theorem word_writes (s : Sheet) (cs : List Char) : Writes s (s.word cs) (s.lead ++ cs) := by
  rw [word, lead]
  cases s.spaced <;> rfl

theorem column_le_put {s₀ : Sheet} (h : s₀.column ≤ s.column) (cs : List Char) : s₀.column ≤ (s.put cs).column :=
  Nat.le_trans h (Nat.le_add_right _ _)

theorem column_le_mark {s₀ : Sheet} (h : s₀.column ≤ s.column) (cs : List Char) : s₀.column ≤ (s.mark cs).column :=
  column_le_put h cs

theorem column_le_word (s : Sheet) (cs : List Char) : s.column ≤ (s.word cs).column := Nat.le_add_right _ _

theorem plain_writes (split : Bool) (h : IsPlain cs) (s : Sheet) :
    ∃ lines, Writes s (s.plain split n cs) (s.lead ++ lines) ∧ (s.plain split n cs).indenting = false ∧
      PlainLines n cs lines := by
  have hchars : ∀ x ∈ cs, isSpecial x = false ∧ isWrittenBreak x = false :=
    fun x hx => ⟨h.plainChars x hx, h.noBreak x hx⟩
  have hlead : Writes s { (if s.spaced then s else s.put [' ']) with spaced := false, indenting := false } s.lead := by
    rw [lead]
    cases s.spaced <;> rfl
  obtain ⟨lines, hwrites, hindenting, hlines, -⟩ := plainRuns_writes (n := n) split
    (runsOf_runs spaceClass cs) hchars h.noIndicator h.last
    { (if s.spaced then s else s.put [' ']) with spaced := false, indenting := false } rfl
  have hhead : ∃ x ∈ cs.head?, x ≠ ' ' := by
    obtain ⟨x, cs, rfl⟩ := List.exists_cons_of_ne_nil h.ne_nil
    exact ⟨x, rfl, fun he => h.head (by rw [he, List.head?_cons])⟩
  exact ⟨lines, hlead.trans hwrites, hindenting, hlines hhead⟩

theorem single_writes (split : Bool) (h : IsSingle cs) (s : Sheet) :
    ∃ lines, Writes s (s.single split n cs) (s.lead ++ '\'' :: (lines ++ ['\''])) ∧
      SingleLines n ((runs spaceClass cs).flatMap readRun) lines := by
  obtain ⟨lines, hwrites, hlines⟩ := singleRuns_writes (n := n) split (runsOf_runs spaceClass cs) h true
    (s.word ['\'']) (.inl rfl) fun _ => .inl rfl
  refine ⟨lines, ?_, hlines⟩
  have hall := (word_writes s ['\'']).trans (hwrites.trans (writes_mark _ ['\'']))
  rwa [List.append_assoc] at hall

theorem double_writes (split : Bool) (cs : List Char) (hs : (split && decide (margin ≤ n)) = true → n ≤ s.column + 1) :
    ∃ lines, Writes s (s.double split n cs) (s.lead ++ '"' :: (lines ++ ['"'])) ∧
      DoubleLines n (readDouble (split && decide (margin ≤ n)) cs) lines := by
  have hcolumn : s.column + 1 ≤ (s.word ['"']).column := by
    refine Nat.add_le_add_left ?_ _
    cases s.spaced <;> simp
  obtain ⟨lines, hwrites, hlines⟩ :=
    doubleChars_writes (n := n) (s := s.word ['"']) split cs rfl fun hbeyond => Nat.le_trans (hs hbeyond) hcolumn
  refine ⟨lines, ?_, hlines⟩
  have hall := (word_writes s ['"']).trans (hwrites.trans (writes_mark _ ['"']))
  rwa [List.append_assoc] at hall

/-- A visible character of the first ones. -/
def IsVisible (x : Char) : Prop := 0x20 < x.toNat ∧ x.toNat < 0x7F

instance (x : Char) : Decidable (IsVisible x) := inferInstanceAs (Decidable (_ ∧ _))

theorem IsVisible.takesColumn {x : Char} (h : IsVisible x) : TakesColumn x := by
  have hne : ∀ y : Char, ¬ IsVisible y → x ≠ y := by
    rintro y hy rfl
    exact hy h
  have hbreak : ∀ y ∈ ['\n', '\r', '\x85', '\u2028', '\u2029', byteOrderMark], x ≠ y := by
    have hhidden : ∀ y ∈ ['\n', '\r', '\x85', '\u2028', '\u2029', byteOrderMark], ¬ IsVisible y := by
      simp [IsVisible, byteOrderMark]
    exact fun y hy => hne y (hhidden y hy)
  simp only [List.forall_mem_cons] at hbreak
  obtain ⟨h1, h2, h3, h4, h5, h6, -⟩ := hbreak
  exact ⟨by simp [isBreak, h1, h2, h3, h4, h5], h6⟩

theorem isVisible_upperHex (w m : Nat) : ∀ x ∈ upperHex w m, IsVisible x := by
  have hdigit : ∀ d < 16, IsVisible (Nat.digitChar d).toUpper := by decide
  intro x hx
  simp only [upperHex, Text.hex, List.mem_map] at hx
  obtain ⟨y, ⟨k, -, rfl⟩, rfl⟩ := hx
  exact hdigit _ (Nat.mod_lt _ (by decide))

theorem isVisible_escaped (c : Char) : ∀ x ∈ escaped c, IsVisible x := by
  have hletters : ∀ e ∈ letters, IsVisible e.2 := by decide
  have hmarks : ∀ x ∈ ['\\', 'x', 'u', 'U'], IsVisible x := by simp [IsVisible]
  simp only [List.forall_mem_cons] at hmarks
  obtain ⟨hslash, h8, h16, h32, -⟩ := hmarks
  unfold escaped
  cases hl : letters.lookup c with
  | some l =>
    obtain ⟨before, after, hletter, -⟩ := List.lookup_eq_some_iff.mp hl
    have hvisible := hletters (c, l) (by rw [hletter]; simp)
    simpa using ⟨hslash, hvisible⟩
  | none =>
    dsimp only
    split
    · simpa using ⟨hslash, h8, isVisible_upperHex 2 c.toNat⟩
    · split
      · simpa using ⟨hslash, h16, isVisible_upperHex 4 c.toNat⟩
      · simpa using ⟨hslash, h32, isVisible_upperHex 8 c.toNat⟩

end Sheet

namespace Node

variable {t : Tag} {text : String} {isKey : Bool} {n : Nat} {s : Sheet}

theorem form_eq_plain (h : form isKey t text = .plain) :
    Tag.ofPlain text = t ∧ (TextForms.ofText text.toList).plain = true := by
  unfold form at h
  dsimp only at h
  split at h
  · split at h <;> cases h
  · split at h
    · next hplain =>
      simp only [Bool.and_eq_true, decide_eq_true_eq] at hplain
      exact hplain.1
    · split at h <;> cases h

theorem form_eq_single (h : form isKey t text = .single) : (TextForms.ofText text.toList).singleQuoted = true := by
  unfold form at h
  dsimp only at h
  split at h
  · split at h <;> cases h
  · split at h
    · cases h
    · split at h
      · next hsingle =>
        rw [Bool.and_eq_true] at hsingle
        exact hsingle.1
      · cases h

theorem form_ne_block (h : t ≠ .binary) : form isKey t text ≠ .block := by
  unfold form
  dsimp only
  rw [if_neg h]
  split
  · simp
  · split <;> simp

theorem isPlain_of_form (h : form isKey t text = .plain) (hne : text ≠ "") : IsPlain text.toList := by
  refine TextForms.isPlain_of_plain ?_ (form_eq_plain h).2
  intro hnil
  exact hne (String.toList_eq_nil_iff.mp hnil)

theorem ne_empty_of_form (h : form isKey .str text = .plain) : text ≠ "" := by
  rintro rfl
  exact absurd (form_eq_plain h).1 (by decide)

/-- The scalar needs no tag: it is a string, or its text is plain. -/
def IsUntagged (isKey : Bool) (t : Tag) (text : String) : Prop :=
  t = .str ∨ form isKey t text = .plain ∧ text ≠ ""

theorem writeScalar_plain (h : form isKey t text = .plain) :
    writeScalar isKey n t text s = s.plain (!isKey) n text.toList := by
  simp [writeScalar, h]

theorem writeScalar_single (h : form isKey .str text = .single) :
    writeScalar isKey n .str text s = s.single (!isKey) n text.toList := by
  simp [writeScalar, h]

theorem writeScalar_double (h : form isKey .str text = .double) :
    writeScalar isKey n .str text s = s.double (!isKey) n text.toList := by
  simp [writeScalar, h]

/-- A scalar is written in lines that are read as `readText` tells. -/
theorem writeScalar_writes (htext : IsUntagged isKey t text)
    (hs : (!isKey && decide (Sheet.margin ≤ n)) = true → n ≤ s.column + 1) :
    ∃ lines, Sheet.Writes s (writeScalar isKey n t text s) (s.lead ++ lines) ∧
      (writeScalar isKey n t text s).indenting = false ∧
      Layout n (decide (form isKey t text = .plain)) (readText isKey n t text).toList lines := by
  have hstr : form isKey t text ≠ .plain → t = .str := fun hform => htext.resolve_right fun h => hform h.1
  unfold readText
  cases hform : form isKey t text with
  | plain =>
    have hne : text ≠ "" := htext.elim (fun h => ne_empty_of_form (h ▸ hform)) fun h => h.2
    have hplain := isPlain_of_form hform hne
    obtain ⟨lines, hwrites, hindenting, hlines⟩ := s.plain_writes (n := n) (!isKey) hplain
    rw [writeScalar_plain hform]
    exact ⟨lines, hwrites, hindenting, .plain hplain hlines⟩
  | single =>
    obtain rfl := hstr (by simp [hform])
    obtain ⟨lines, hwrites, hlines⟩ := s.single_writes (n := n) (!isKey)
      (TextForms.isSingle_of_singleQuoted (form_eq_single hform))
    rw [writeScalar_single hform]
    exact ⟨_, hwrites, rfl, .single (by rwa [String.toList_ofList])⟩
  | double =>
    obtain rfl := hstr (by simp [hform])
    obtain ⟨lines, hwrites, hlines⟩ := Sheet.double_writes (!isKey) text.toList hs
    rw [writeScalar_double hform]
    exact ⟨_, hwrites, rfl, .double (by rwa [String.toList_ofList])⟩
  | block =>
    obtain rfl := hstr (by simp [hform])
    exact absurd hform (form_ne_block (by simp))

/-- What makes a text short enough for a key on one line. -/
theorem isSimpleKey_str (h : (scalar .str text).isSimpleKey = true) :
    text ≠ "" ∧ ∀ x ∈ text.toList, isWrittenBreak x = false := by
  simp only [isSimpleKey, Bool.and_eq_true, Bool.not_eq_true'] at h
  obtain ⟨⟨-, hempty⟩, hmultiline⟩ := h
  have hne : text ≠ "" := by
    rintro rfl
    exact absurd hempty (by decide)
  have hcs : text.toList.isEmpty = false := by simpa using hne
  rw [TextForms.ofText, hcs] at hmultiline
  exact ⟨hne, by simpa using hmultiline⟩

/-- A key on its line is read back as it is. -/
theorem readText_key (hsimple : (scalar .str text).isSimpleKey = true) : readText true n .str text = text := by
  obtain ⟨-, hbreak⟩ := isSimpleKey_str hsimple
  unfold readText
  split
  · have hnone : '\x85' ∉ text.toList := fun hmem => absurd (hbreak _ hmem) (by decide)
    rw [(Sheet.readRuns_eq_iff (runsOf_runs spaceClass text.toList)).mpr hnone, String.ofList_toList]
  · have hshown : Sheet.readDouble (!true && decide (Sheet.margin ≤ n)) text.toList = text.toList := by
      cases text.toList with
      | nil => rfl
      | cons c cs => rw [Sheet.readDouble, Bool.not_true, Bool.false_and, Sheet.readShown_false]
    rw [hshown, String.ofList_toList]
  · rfl

/-- A key is written on its line, in characters that it is read from. -/
theorem writeKey_writes (hsimple : (scalar .str text).isSimpleKey = true) (hs : s.spaced = true) :
    Sheet.Writes s (writeScalar true n .str text s) (keyChars text) ∧
      s.column ≤ (writeScalar true n .str text s).column ∧
      Layout n (decide (form true .str text = .plain)) text.toList (keyChars text) := by
  obtain ⟨hne, hbreak⟩ := isSimpleKey_str hsimple
  obtain ⟨lines, hwrites, -, hlayout⟩ :=
    writeScalar_writes (n := n) (s := s) (.inl rfl : IsUntagged true .str text) fun h => nomatch h
  rw [readText_key hsimple] at hlayout
  have hruns := runsOf_runs spaceClass text.toList
  have hlead : s.lead = [] := by rw [Sheet.lead, if_pos hs]
  have hword := fun cs => s.word_writes cs
  rw [hlead] at hword
  have hkey : Sheet.Writes s (writeScalar true n .str text s) (keyChars text) ∧
      s.column ≤ (writeScalar true n .str text s).column := by
    cases hform : form true .str text with
    | plain =>
      rw [writeScalar_plain hform, Sheet.plain, if_pos hs, Bool.not_true, Sheet.plainRuns_unsplit, hruns.flatten]
      unfold keyChars
      simp only [hform]
      exact ⟨Sheet.writes_put { s with spaced := false, indenting := false } text.toList, Nat.le_add_right _ _⟩
    | single =>
      have hflat := hbreak
      rw [← hruns.flatten] at hflat
      rw [writeScalar_single hform, Sheet.single, Bool.not_true, Sheet.singleRuns_unsplit hflat, hruns.flatten]
      unfold keyChars
      simp only [hform]
      exact ⟨(hword ['\'']).trans ((Sheet.writes_put _ _).trans (Sheet.writes_mark _ ['\''])),
        Sheet.column_le_mark (Sheet.column_le_put (Sheet.column_le_word s _) _) _⟩
    | double =>
      rw [writeScalar_double hform, Sheet.double, Bool.not_true, Sheet.doubleChars_unsplit]
      unfold keyChars
      simp only [hform]
      exact ⟨(hword ['"']).trans ((Sheet.writes_put _ _).trans (Sheet.writes_mark _ ['"'])),
        Sheet.column_le_mark (Sheet.column_le_put (Sheet.column_le_word s _) _) _⟩
    | block => exact absurd hform (form_ne_block (by simp))
  rw [hlead, List.nil_append] at hwrites
  exact ⟨hkey.1, hkey.2, hwrites.unique hkey.1 ▸ hlayout⟩

theorem takesColumn_keyChars (hsimple : (scalar .str text).isSimpleKey = true) :
    ∀ x ∈ keyChars text, TakesColumn x := by
  obtain ⟨hne, hbreak⟩ := isSimpleKey_str hsimple
  have hplain : (∀ x ∈ text.toList, isSpecial x = false) → ∀ x ∈ text.toList, TakesColumn x := by
    intro hspecial x hx
    obtain ⟨-, hreturn, hmark⟩ := TextForms.not_special (hspecial x hx)
    have hwritten := hbreak x hx
    simp only [isWrittenBreak, Bool.or_eq_false_iff] at hwritten
    exact ⟨by simp [isBreak, hwritten, hreturn], hmark⟩
  have hquotes : TakesColumn '\'' ∧ TakesColumn '"' := by
    constructor <;> exact Sheet.IsVisible.takesColumn (by decide)
  have hinside : ∀ {q : Char} {cs : List Char}, TakesColumn q → (∀ x ∈ cs, TakesColumn x) →
      ∀ x ∈ q :: (cs ++ [q]), TakesColumn x := fun hq hcs =>
    List.forall_mem_cons.mpr ⟨hq, List.forall_mem_append.mpr ⟨hcs, List.forall_mem_singleton.mpr hq⟩⟩
  unfold keyChars
  cases hform : form true .str text with
  | plain => exact hplain (isPlain_of_form hform hne).plainChars
  | single =>
    have hchars := hplain (TextForms.isSingle_of_singleQuoted (form_eq_single hform)).plainChars
    have hdoubled : ∀ x ∈ text.toList.flatMap Sheet.doubled, TakesColumn x := by
      intro x hx
      obtain ⟨c, hc, hx⟩ := List.mem_flatMap.mp hx
      unfold Sheet.doubled at hx
      split at hx
      · have hquote : x = '\'' := by simpa using hx
        exact hquote ▸ hquotes.1
      · exact List.mem_singleton.mp hx ▸ hchars c hc
    exact hinside hquotes.1 hdoubled
  | double =>
    have hshown : ∀ x ∈ text.toList.flatMap Sheet.shown, TakesColumn x := by
      intro x hx
      obtain ⟨c, hc, hx⟩ := List.mem_flatMap.mp hx
      unfold Sheet.shown at hx
      split at hx
      · exact (Sheet.isVisible_escaped c x hx).takesColumn
      · next hescape =>
        obtain rfl := List.mem_singleton.mp hx
        exact Sheet.takesColumn_of_not_isEscaped (Bool.eq_false_of_not_eq_true hescape)
    exact hinside hquotes.2 hshown
  | block => exact absurd hform (form_ne_block (by simp))

end Node

end TopologyConfig.Yaml
