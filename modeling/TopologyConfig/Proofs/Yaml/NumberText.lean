import TopologyConfig.Proofs.Number.DecimalText
import TopologyConfig.Proofs.Text.Blank
import TopologyConfig.Proofs.Value.Document
import TopologyConfig.Proofs.Yaml.ScalarLines
import TopologyConfig.Yaml.ScalarValue

/-!
Numbers as YAML has them. The text of a number stands without quotes, has the tag of the number by itself, and is read
as the number that it was written for.
-/
namespace TopologyConfig.Yaml

open Numeral (AreDigits)
open TextForms (isSpecial isWrittenBreak)

/-- The characters of numbers in base ten. -/
def numberChars : List Char := ['0', '1', '2', '3', '4', '5', '6', '7', '8', '9', '-', '+', '.', 'e']

theorem mem_numberChars_of_isDigit {c : Char} (h : c.isDigit = true) : c ∈ numberChars := by
  obtain ⟨hlow, hhigh⟩ := Numeral.toNat_of_isDigit h
  have hall : ∀ n < 58, 48 ≤ n → Char.ofNat n ∈ numberChars := by decide +kernel
  have hc := hall c.toNat (by omega) hlow
  rwa [Char.ofNat_toNat] at hc

/-- A number without its sign. -/
structure IsUnsigned (cs : List Char) : Prop where
  head : ∃ d ds, cs = d :: ds ∧ d.isDigit = true
  chars : ∀ x ∈ cs, x ∈ numberChars

section

variable {cs : List Char}

theorem IsUnsigned.of_areDigits (h : AreDigits cs) (hne : cs ≠ []) : IsUnsigned cs := by
  obtain ⟨d, ds, rfl⟩ := List.exists_cons_of_ne_nil hne
  exact ⟨⟨d, ds, rfl, h d List.mem_cons_self⟩, fun x hx => mem_numberChars_of_isDigit (h x hx)⟩

theorem IsUnsigned.signed_chars (h : IsUnsigned cs) (negative : Bool) : ∀ x ∈ (if negative then ['-'] else []) ++ cs, x ∈ numberChars := by
  refine List.forall_mem_append.mpr ⟨?_, h.chars⟩
  cases negative <;> simp [numberChars]

/-- With its sign the number begins with a character that no word begins with. -/
theorem IsUnsigned.signed_head (h : IsUnsigned cs) (negative : Bool) : ∃ c ds, (if negative then ['-'] else []) ++ cs = c :: ds ∧
    (c = '-' ∨ c.isDigit = true) := by
  obtain ⟨d, ds, rfl, hd⟩ := h.head
  cases negative with
  | true => exact ⟨_, _, rfl, .inl rfl⟩
  | false => exact ⟨_, _, rfl, .inr hd⟩

theorem IsUnsigned.dropSign_eq (h : IsUnsigned cs) (negative : Bool) : Plain.dropSign ((if negative then ['-'] else []) ++ cs) = cs := by
  obtain ⟨d, ds, rfl, hd⟩ := h.head
  have hminus : d ≠ '-' := Numeral.ne_of_isDigit hd rfl
  have hplus : d ≠ '+' := Numeral.ne_of_isDigit hd rfl
  cases negative with
  | true => rfl
  | false =>
    rw [if_neg Bool.false_ne_true, List.nil_append]
    unfold Plain.dropSign
    split <;> simp_all

theorem IsUnsigned.signed_eq (h : IsUnsigned cs) (negative : Bool) :
    ScalarValue.signed ((if negative then ['-'] else []) ++ cs) = .ok (negative, cs) := by
  obtain ⟨d, ds, rfl, hd⟩ := h.head
  have hminus : d ≠ '-' := Numeral.ne_of_isDigit hd rfl
  have hplus : d ≠ '+' := Numeral.ne_of_isDigit hd rfl
  cases negative with
  | true => rfl
  | false =>
    rw [if_neg Bool.false_ne_true, List.nil_append]
    unfold ScalarValue.signed
    split <;> simp_all

/-- No word begins like a number. -/
theorem IsUnsigned.isWord_eq_false (h : IsUnsigned cs) (negative : Bool) {words : List String}
    (hwords : words.all (fun w => w.toList.head?.any fun x => x != '-' && !x.isDigit) = true) :
    Plain.isWord words ((if negative then ['-'] else []) ++ cs) = false := by
  obtain ⟨c, ds, hcs, hc⟩ := h.signed_head negative
  rw [hcs]
  refine List.any_eq_false.mpr fun w hw => ?_
  have hfirst := List.all_eq_true.mp hwords w hw
  obtain ⟨x, hx, hminus, hdigit⟩ : ∃ x, w.toList.head? = some x ∧ x ≠ '-' ∧ x.isDigit = false := by
    simpa [Option.any_eq_true] using hfirst
  obtain ⟨xs, hxs⟩ := List.head?_eq_some_iff.mp hx
  have hne : x ≠ c := by
    rintro rfl
    rcases hc with rfl | hc
    · exact hminus rfl
    · rw [hc] at hdigit
      cases hdigit
  simp [hxs, List.isPrefixOf, hne]

theorem filter_numberChars (h : ∀ x ∈ cs, x ∈ numberChars) : cs.filter (· != '_') = cs := by
  have hall : numberChars.all (· != '_') = true := by decide
  exact List.filter_eq_self.mpr fun x hx => List.all_eq_true.mp hall x (h x hx)

/-- Where neither spaces nor breaks are, they do not meet. -/
theorem hasBreakSpace_eq_false (h : ∀ x ∈ cs, x ≠ ' ') :
    TextForms.hasBreakSpace cs = false ∧ TextForms.hasSpaceBreak cs = false := by
  induction cs with
  | nil => exact ⟨rfl, rfl⟩
  | cons a cs ih =>
    obtain ⟨ha, hcs⟩ := List.forall_mem_cons.mp h
    cases cs with
    | nil => exact ⟨rfl, rfl⟩
    | cons b cs =>
      have hb := hcs b List.mem_cons_self
      obtain ⟨hbreak, hspace⟩ := ih hcs
      simp [TextForms.hasBreakSpace, TextForms.hasSpaceBreak, ha, hb, hbreak, hspace]

theorem hasIndicator_eq_false (h : ∀ x ∈ cs, x ≠ ':' ∧ x ≠ '#') (afterGap : Bool) :
    TextForms.hasIndicator afterGap cs = false := by
  induction cs generalizing afterGap with
  | nil => rfl
  | cons c cs ih =>
    obtain ⟨⟨hcolon, hsign⟩, hcs⟩ := List.forall_mem_cons.mp h
    simp [TextForms.hasIndicator, hcolon, hsign, ih hcs]

/-- A number looks neither like the mark of a document nor like an indicator. -/
theorem IsUnsigned.leads (h : IsUnsigned cs) (negative : Bool) :
    TextForms.startsLikeMark ((if negative then ['-'] else []) ++ cs) = false ∧
      TextForms.leadsBadly ((if negative then ['-'] else []) ++ cs) = false := by
  obtain ⟨d, ds, rfl, hd⟩ := h.head
  have hne : ∀ x : Char, x.isDigit = false → d ≠ x := fun x hx => Numeral.ne_of_isDigit hd hx
  have hgap : TextForms.isGap d = false := by
    simp [TextForms.isGap, isBreak, hne]
  cases negative with
  | true => simp [TextForms.startsLikeMark, TextForms.leadsBadly, TextForms.endsGap, hgap, hne]
  | false => simp [TextForms.startsLikeMark, TextForms.leadsBadly, hne]

/-- A number stands without quotes. -/
theorem IsUnsigned.plain (h : IsUnsigned cs) (negative : Bool) :
    (TextForms.ofText ((if negative then ['-'] else []) ++ cs)).plain = true := by
  have hall : numberChars.all (fun x => !isSpecial x && !isWrittenBreak x && x != ' ' && x != ':' && x != '#') = true := by
    decide
  have hchars : ∀ x ∈ (if negative then ['-'] else []) ++ cs,
      isSpecial x = false ∧ isWrittenBreak x = false ∧ x ≠ ' ' ∧ x ≠ ':' ∧ x ≠ '#' := by
    intro x hx
    simpa [and_assoc] using List.all_eq_true.mp hall x (h.signed_chars negative x hx)
  have hne : ((if negative then ['-'] else []) ++ cs).isEmpty = false := by
    obtain ⟨d, ds, rfl, -⟩ := h.head
    simp
  obtain ⟨hmark, hleads⟩ := h.leads negative
  generalize (if negative then ['-'] else []) ++ cs = text at *
  obtain ⟨hbreakSpace, hspaceBreak⟩ := hasBreakSpace_eq_false fun x hx => (hchars x hx).2.2.1
  have hindicator := hasIndicator_eq_false fun x hx => (hchars x (List.mem_of_mem_drop (i := 1) hx)).2.2.2
  have hedge : ∀ x ∈ text, TextForms.isEdge (some x) = false := by
    intro x hx
    obtain ⟨-, hbreak, hspace, -⟩ := hchars x hx
    simp [TextForms.isEdge, hbreak, hspace]
  have hfirst : TextForms.isEdge text.head? = false := by
    cases hx : text.head? with
    | none => rfl
    | some x => exact hedge x (List.mem_of_head? hx)
  have hlast : TextForms.isEdge text.getLast? = false := by
    cases hx : text.getLast? with
    | none => rfl
    | some x => exact hedge x (List.mem_of_getLast? hx)
  have hspecial : text.any isSpecial = false := by simpa using fun x hx => (hchars x hx).1
  have hmultiline : text.any isWrittenBreak = false := by simpa using fun x hx => (hchars x hx).2.1
  rw [TextForms.ofText, hne]
  simp only [Bool.false_eq_true, if_false, hmark, hleads, hindicator, hbreakSpace, hspaceBreak, hspecial, hmultiline,
    hfirst, hlast]
  rfl

end

/-! Whole numbers. -/

section

variable {cs : List Char}

theorem dropWhile_isGrouped (h : AreDigits cs) (rest : List Char) (hrest : ∀ x ∈ rest.head?, Plain.isGrouped x = false) :
    (cs ++ rest).dropWhile Plain.isGrouped = rest := by
  have hgrouped : ∀ x ∈ cs, Plain.isGrouped x = true := fun x hx => by simp [Plain.isGrouped, h x hx]
  rw [List.dropWhile_append_of_pos hgrouped]
  cases rest with
  | nil => rfl
  | cons x rest => rw [List.dropWhile_cons_of_neg (by simp [hrest x rfl])]

theorem isFloat_of_areDigits (negative : Bool) (h : AreDigits cs) (hne : cs ≠ []) :
    Plain.isFloat ((if negative then ['-'] else []) ++ cs) = false := by
  have hunsigned := IsUnsigned.of_areDigits h hne
  obtain ⟨c, ds, hcs, hc⟩ := hunsigned.signed_head negative
  obtain ⟨d, rest, rfl⟩ := List.exists_cons_of_ne_nil hne
  have hrest : rest.dropWhile Plain.isGrouped = [] := by
    have hdrop := dropWhile_isGrouped (fun x hx => h x (List.mem_cons_of_mem d hx) : AreDigits rest) [] (by simp)
    rwa [List.append_nil] at hdrop
  have hpoint : c ≠ '.' := by
    rintro rfl
    exact absurd hc (by decide)
  have hword : Plain.isWord [".nan", ".NaN", ".NAN"] (c :: ds) = false := hcs ▸ hunsigned.isWord_eq_false negative rfl
  have hinf : Plain.isWord [".inf", ".Inf", ".INF"] (d :: rest) = false := hunsigned.isWord_eq_false false rfl
  have hsign : Plain.dropSign (c :: ds) = d :: rest := hcs ▸ hunsigned.dropSign_eq negative
  have hsixties : Plain.sixties? [] = none := rfl
  rw [hcs]
  unfold Plain.isFloat
  simp only [hword, hinf, hsign, hrest, hsixties, Plain.decimalEnd, Bool.false_or, Bool.and_false, Bool.or_false]
  split
  · next heq => exact absurd (List.cons.inj heq).1 hpoint
  · rfl

theorem isInt_of_areDigits (negative : Bool) (h : AreDigits cs) (hne : cs ≠ []) (hzero : cs.head? = some '0' → cs = ['0']) :
    Plain.isInt ((if negative then ['-'] else []) ++ cs) = true := by
  rw [Plain.isInt, (IsUnsigned.of_areDigits h hne).dropSign_eq negative]
  obtain ⟨d, rest, rfl⟩ := List.exists_cons_of_ne_nil hne
  by_cases hd : d = '0'
  · subst hd
    obtain rfl : rest = [] := (List.cons.inj (hzero rfl)).2
    rfl
  · have hdigit : d.isDigit = true := h d List.mem_cons_self
    have hrest : rest.dropWhile Plain.isGrouped = [] := by
      have hdrop := dropWhile_isGrouped (fun x hx => h x (List.mem_cons_of_mem d hx) : AreDigits rest) [] (by simp)
      rwa [List.append_nil] at hdrop
    split <;> simp_all [Plain.atEnd]

theorem head?_toDigits (n : Nat) : (Nat.toDigits 10 n).head? = some '0' → Nat.toDigits 10 n = ['0'] := by
  intro hhead
  by_cases hn : n = 0
  · rw [hn]
    rfl
  · exact absurd hhead (Numeral.toDigits_ne_zero_head hn)

theorem toList_numeral (n : Int) :
    (toString n).toList = (if decide (n < 0) then ['-'] else []) ++ Nat.toDigits 10 n.natAbs := by
  simp only [Numeral.toList_toString, decide_eq_true_eq]

theorem ofPlain_toString (n : Int) : Tag.ofPlain (toString n) = .int := by
  have hdigits := Numeral.areDigits_toDigits n.natAbs
  have hne : Nat.toDigits 10 n.natAbs ≠ [] := Nat.toDigits_ne_nil
  have hunsigned := IsUnsigned.of_areDigits hdigits hne
  have hword : Plain.isWord Plain.boolWords (toString n).toList = false :=
    toList_numeral n ▸ hunsigned.isWord_eq_false (decide (n < 0)) rfl
  have hfloat : Plain.isFloat (toString n).toList = false := toList_numeral n ▸ isFloat_of_areDigits _ hdigits hne
  have hint : Plain.isInt (toString n).toList = true :=
    toList_numeral n ▸ isInt_of_areDigits _ hdigits hne (head?_toDigits n.natAbs)
  rw [Tag.ofPlain]
  simp only [hword, hfloat, hint, Bool.false_eq_true, if_false, if_true]

theorem numeral_toDigits {n : Nat} (h : Numeral.isWritable n = true) :
    ScalarValue.numeral 10 (Nat.toDigits 10 n) = .ok n := by
  have hread := Numeral.read_toString h
  have htext : toString (n : Int) = String.ofList (Nat.toDigits 10 n) := by
    rw [← String.toList_inj, Numeral.toList_toString, if_neg (by omega), String.toList_ofList]
    rfl
  rw [ScalarValue.numeral, ← htext, hread]
  rfl

theorem readInt_toString {n : Int} (h : Numeral.isWritable n = true) : ScalarValue.int (toString n) = .ok (.int n) := by
  have hdigits := Numeral.areDigits_toDigits n.natAbs
  have hne : Nat.toDigits 10 n.natAbs ≠ [] := Nat.toDigits_ne_nil
  have hunsigned := IsUnsigned.of_areDigits hdigits hne
  have hwritable : Numeral.isWritable n.natAbs = true := by
    rw [Numeral.isWritable_iff] at h ⊢
    exact h
  have hsign : (if decide (n < 0) then -(n.natAbs : Int) else n.natAbs) = n := by
    by_cases hn : n < 0 <;> simp only [hn, decide_true, decide_false, if_true, Bool.false_eq_true, if_false] <;> omega
  have hread := numeral_toDigits hwritable
  rw [ScalarValue.int, toList_numeral, filter_numberChars (hunsigned.signed_chars _), hunsigned.signed_eq]
  simp only [bind, Except.bind]
  by_cases hn : n = 0
  · subst hn
    rfl
  · obtain ⟨d, ds, hds⟩ := List.exists_cons_of_ne_nil hne
    have hd : d ≠ '0' := by
      rintro rfl
      have hhead := Numeral.toDigits_ne_zero_head (Int.natAbs_ne_zero.mpr hn)
      exact hhead (by rw [hds, List.head?_cons])
    rw [hds] at hread hdigits ⊢
    have hcolon : ':' ∉ d :: ds := fun hmem => absurd (hdigits ':' hmem) (by decide)
    split
    · next heq => cases heq
    · next heq => exact absurd (List.cons.inj heq).1 hd
    · next heq => exact absurd (List.cons.inj heq).1 hd
    · next heq => exact absurd (List.cons.inj heq).1 hd
    · next heq => exact absurd (List.cons.inj heq).1 hd
    · rw [if_neg (by simpa using hcolon), hread]
      exact congrArg (fun m => Except.ok (Value.int m)) hsign

end

/-! Floating-point numbers. -/

section

open Binary64 (DecimalText)

variable {t : DecimalText}

theorem isUnsigned_chars (t : DecimalText) : IsUnsigned t.chars := by
  obtain ⟨d, ds, hwhole⟩ := List.exists_cons_of_ne_nil t.whole_ne_nil
  have hdigits : ∀ {cs : List Char}, AreDigits cs → ∀ x ∈ cs, x ∈ numberChars :=
    fun h x hx => mem_numberChars_of_isDigit (h x hx)
  have hpoint : ∀ x ∈ t.pointChars, x ∈ numberChars := by
    unfold DecimalText.pointChars
    split
    · exact fun x hx => nomatch hx
    · exact List.forall_mem_cons.mpr ⟨by decide, hdigits t.digits_decimals⟩
  have hexponent : ∀ x ∈ t.exponentChars, x ∈ numberChars := by
    unfold DecimalText.exponentChars
    split
    · exact fun x hx => nomatch hx
    · next negative ds he =>
      have hds := hdigits (t.digits_exponent _ he).1
      refine List.forall_mem_cons.mpr ⟨by decide, List.forall_mem_cons.mpr ⟨?_, hds⟩⟩
      cases negative <;> decide
  refine ⟨⟨d, ds ++ t.pointChars ++ t.exponentChars, by simp [DecimalText.chars, hwhole], ?_⟩, ?_⟩
  · exact t.digits_whole d (by simp [hwhole])
  · exact List.forall_mem_append.mpr ⟨List.forall_mem_append.mpr ⟨hdigits t.digits_whole, hpoint⟩, hexponent⟩

theorem exponentEnd_exponentChars (t : DecimalText) : Plain.exponentEnd t.exponentChars = true := by
  unfold DecimalText.exponentChars
  split
  · rfl
  · next negative ds he =>
    obtain ⟨hdigits, hne, -⟩ := t.digits_exponent _ he
    have htake : ds.takeWhile Plain.isDigit = ds := List.takeWhile_eq_self_iff.mpr hdigits
    have hdrop : ds.dropWhile Plain.isDigit = [] := List.dropWhile_eq_nil_iff.mpr hdigits
    have hsome : Plain.someOf Plain.isDigit ds = true := by simp [Plain.someOf, htake, hdrop, hne, Plain.atEnd]
    cases negative <;> exact hsome

/-- A number with a point is taken for a floating-point number. -/
theorem isFloat_chars (negative : Bool) (h : t.decimals ≠ []) :
    Plain.isFloat ((if negative then ['-'] else []) ++ t.chars) = true := by
  obtain ⟨d, ds, hwhole⟩ := List.exists_cons_of_ne_nil t.whole_ne_nil
  have hd : d.isDigit = true := t.digits_whole d (by simp [hwhole])
  have hds : AreDigits ds := fun x hx => t.digits_whole x (by simp [hwhole, hx])
  have hchars : t.chars = d :: (ds ++ '.' :: (t.decimals ++ t.exponentChars)) := by
    simp [DecimalText.chars, DecimalText.pointChars, hwhole, h]
  have hsign : Plain.dropSign ((if negative then ['-'] else []) ++ t.chars) =
      d :: (ds ++ '.' :: (t.decimals ++ t.exponentChars)) := by
    rw [(isUnsigned_chars t).dropSign_eq negative, hchars]
  have hrest := dropWhile_isGrouped hds ('.' :: (t.decimals ++ t.exponentChars)) fun x hx => by
    obtain rfl := Option.some.inj hx
    rfl
  have hexponent := dropWhile_isGrouped t.digits_decimals t.exponentChars fun x hx => by
    rw [t.head?_exponentChars x hx]
    rfl
  have hend : Plain.decimalEnd ('.' :: (t.decimals ++ t.exponentChars)) = true := by
    rw [Plain.decimalEnd, hexponent]
    exact exponentEnd_exponentChars t
  unfold Plain.isFloat
  rw [hsign]
  dsimp only
  rw [hd, hrest, hend]
  simp

theorem ofPlain_chars (negative : Bool) (h : t.decimals ≠ []) {text : String}
    (htext : text.toList = (if negative then ['-'] else []) ++ t.chars) : Tag.ofPlain text = .float := by
  have hword : Plain.isWord Plain.boolWords text.toList = false :=
    htext ▸ (isUnsigned_chars t).isWord_eq_false negative rfl
  have hfloat : Plain.isFloat text.toList = true := htext ▸ isFloat_chars negative h
  rw [Tag.ofPlain]
  simp only [hword, hfloat, Bool.false_eq_true, if_false, if_true]

theorem lower_eq {cs : List Char} (h : ∀ x ∈ cs, x ∈ numberChars) : Text.lower (String.ofList cs) = String.ofList cs := by
  have hall : numberChars.all (fun x => x != 'Σ' && Text.lowerChar x == [x]) = true := by decide
  have hafter : ∀ before, Text.lowerAfter before cs = cs := by
    induction cs with
    | nil => exact fun before => rfl
    | cons c cs ih =>
      intro before
      obtain ⟨hc, hcs⟩ := List.forall_mem_cons.mp h
      obtain ⟨hsigma, hlower⟩ : c ≠ 'Σ' ∧ Text.lowerChar c = [c] := by simpa using List.all_eq_true.mp hall c hc
      rw [Text.lowerAfter, ih hcs]
      simp [hsigma, hlower]
  rw [Text.lower, String.toList_ofList, hafter]

theorem groupedWell_eq {cs : List Char} (h : ∀ x ∈ cs, x ≠ '_') : Binary64.groupedWell cs = true := by
  induction cs using Binary64.groupedWell.induct <;> simp_all [Binary64.groupedWell]

/-- A number is read as its digits and its scale tell. -/
theorem read?_chars (t : DecimalText) :
    Binary64.read? (String.ofList t.chars) = some (Binary64.ofDecimal false t.digits t.scale) := by
  have hall : numberChars.all (fun x => !Text.isBlank x && Binary64.asciiDigit x == x && x != '_') = true := by decide +kernel
  have hchars : ∀ x ∈ t.chars, (Text.isBlank x = false ∧ Binary64.asciiDigit x = x) ∧ x ≠ '_' := fun x hx => by
    simpa using List.all_eq_true.mp hall x ((isUnsigned_chars t).chars x hx)
  have htrim : Text.trim t.chars = t.chars := (Text.isTrim_of_forall fun x hx => (hchars x hx).1.1).trim_eq
  have hmap : t.chars.map Binary64.asciiDigit = t.chars := by
    conv_rhs => rw [← List.map_id t.chars]
    exact List.map_congr_left fun x hx => (hchars x hx).1.2
  obtain ⟨d, ds, hcs, hd⟩ := (isUnsigned_chars t).head
  have hne : ∀ x : Char, x.isDigit = false → d ≠ x := fun x hx => Numeral.ne_of_isDigit hd hx
  have hsign : Numeral.splitSign t.chars = (false, t.chars) := by
    rw [hcs]
    unfold Numeral.splitSign
    split
    · next heq => exact absurd (List.cons.inj heq).1 (hne '-' rfl)
    · next heq => exact absurd (List.cons.inj heq).1 (hne '+' rfl)
    · rfl
  have hword : ∀ w : String, w.toList.head?.any (fun x => !x.isDigit) = true →
      (String.ofList (t.chars.map Char.toLower) == w) = false := by
    intro w hw
    rw [beq_eq_false_iff_ne]
    rintro rfl
    have hlower : d.toLower = d := by
      have hdigit := mem_numberChars_of_isDigit hd
      simpa using List.all_eq_true.mp (by decide : numberChars.all (fun x => x.toLower == x) = true) d hdigit
    simp [hcs, hlower, hd] at hw
  have hfilter : t.chars.filter (· != '_') = t.chars := filter_numberChars (isUnsigned_chars t).chars
  have hgrouped := groupedWell_eq fun x hx => (hchars x hx).2
  rw [Binary64.read?, String.toList_ofList, htrim, hmap, hsign]
  simp only [hword "inf" rfl, hword "infinity" rfl, hword "nan" rfl, hgrouped, hfilter, t.read?_chars, Bool.or_false,
    Bool.false_eq_true, if_false, if_true, Option.map_some, t.toBinary64_eq]

/-- A decimal has the same size with a zero behind its point. -/
theorem exists_withDecimals (t : DecimalText) (h : t.decimals = []) : ∃ t' : DecimalText, t'.size = t.size ∧
    t'.decimals ≠ [] ∧ t'.chars = t.whole ++ '.' :: '0' :: t.exponentChars := by
  refine ⟨{ t with decimals := ['0'], digits_decimals := by simp [AreDigits, Char.isDigit] }, ?_, by simp, ?_⟩
  · have hdigits : Nat.ofDigitChars 10 (t.whole ++ ['0']) 0 = Nat.ofDigitChars 10 t.whole 0 * 10 :=
      Binary64.ofDigitChars_append_zeros t.whole 1
    have hscale : (10 : ℚ) ^ (t.exponentValue - 0) = 10 * 10 ^ (t.exponentValue - 1) := by
      rw [← zpow_one_add₀ (by norm_num : (10 : ℚ) ≠ 0)]
      congr 1
      ring
    rw [DecimalText.size, DecimalText.size, DecimalText.digits, DecimalText.digits, DecimalText.scale, DecimalText.scale, h,
      List.append_nil]
    change ((Nat.ofDigitChars 10 (t.whole ++ ['0']) 0 : ℕ) : ℚ) * 10 ^ (t.exponentValue - 1) =
      (Nat.ofDigitChars 10 t.whole 0 : ℕ) * 10 ^ (t.exponentValue - 0)
    rw [hdigits, hscale, Nat.cast_mul, mul_assoc]
    rfl
  · simp [DecimalText.chars, DecimalText.pointChars, DecimalText.exponentChars]

/-- A number without a point gets decimals in front of the letter of its exponent. -/
theorem flatMap_exponent {before after : List Char} (hbefore : ∀ c ∈ before, c ≠ 'e' ∧ c ≠ '.')
    (hafter : ∀ c ∈ after, c ≠ 'e' ∧ c ≠ '.') :
    (before ++ 'e' :: after).contains '.' = false ∧
      (before ++ 'e' :: after).flatMap (fun c => if c == 'e' then ['.', '0', 'e'] else [c]) =
        before ++ '.' :: '0' :: 'e' :: after := by
  have hself : ∀ cs : List Char, (∀ c ∈ cs, c ≠ 'e' ∧ c ≠ '.') →
      cs.flatMap (fun c => if c == 'e' then ['.', '0', 'e'] else [c]) = cs := by
    intro cs hcs
    have hsingle : ∀ c ∈ cs, (if c == 'e' then ['.', '0', 'e'] else [c]) = [c] := fun c hc => by simp [(hcs c hc).1]
    rw [List.flatMap_congr hsingle, List.flatMap_singleton']
  refine ⟨?_, ?_⟩
  · have hmem : '.' ∉ before ++ 'e' :: after := by
      simp only [List.mem_append, List.mem_cons, not_or]
      exact ⟨fun h => (hbefore '.' h).2 rfl, by decide, fun h => (hafter '.' h).2 rfl⟩
    simpa using hmem
  · rw [List.flatMap_append, List.flatMap_cons, hself before hbefore, hself after hafter]
    rfl

/-- A finite number has decimals in its text, even in front of an exponent. -/
theorem exists_floatText {x : Binary64} (hx : x.isFinite = true) : ∃ t : DecimalText, t.decimals ≠ [] ∧
    (floatText x).toList = (if x.isNegative then ['-'] else []) ++ t.chars ∧
      Binary64.ofDecimal x.isNegative t.digits t.scale = x := by
  obtain ⟨t, htext, hmark, hread⟩ := Binary64.exists_textWith hx ⟨".nan", ".inf", "-.inf"⟩
  by_cases hdecimals : t.decimals = []
  · obtain ⟨e, hexponent⟩ := Option.ne_none_iff_exists'.mp (hmark.resolve_left (not_not_intro hdecimals))
    obtain ⟨negative, ds⟩ := e
    obtain ⟨t', hsize, hne, hchars⟩ := exists_withDecimals t hdecimals
    have hexponentChars : t.exponentChars = 'e' :: (if negative then '-' else '+') :: ds := by
      simp [DecimalText.exponentChars, hexponent]
    have hplain : t.chars = t.whole ++ t.exponentChars := by simp [DecimalText.chars, DecimalText.pointChars, hdecimals]
    have hdigits : ∀ {cs : List Char}, AreDigits cs → ∀ c ∈ cs, c ≠ 'e' ∧ c ≠ '.' :=
      fun h c hc => ⟨Numeral.ne_of_isDigit (h c hc) rfl, Numeral.ne_of_isDigit (h c hc) rfl⟩
    have hbefore : ∀ c ∈ (if x.isNegative then ['-'] else []) ++ t.whole, c ≠ 'e' ∧ c ≠ '.' := by
      refine List.forall_mem_append.mpr ⟨?_, hdigits t.digits_whole⟩
      cases x.isNegative <;> simp
    have hafter : ∀ c ∈ (if negative then '-' else '+') :: ds, c ≠ 'e' ∧ c ≠ '.' := by
      refine List.forall_mem_cons.mpr ⟨?_, hdigits (t.digits_exponent _ hexponent).1⟩
      cases negative <;> decide
    obtain ⟨hpoint, hflat⟩ := flatMap_exponent hbefore hafter
    rw [hplain, hexponentChars, ← List.append_assoc] at htext
    refine ⟨t', hne, ?_, hread t' hsize⟩
    rw [floatText]
    simp only [htext, hpoint, hflat, Bool.false_eq_true, if_false, String.toList_ofList]
    rw [hchars, hexponentChars, List.append_assoc]
  · have hpoint : (x.textWith ⟨".nan", ".inf", "-.inf"⟩).toList.contains '.' = true := by
      simp [htext, DecimalText.chars, DecimalText.pointChars, hdecimals]
    refine ⟨t, hdecimals, ?_, hread t rfl⟩
    rw [floatText]
    simp only [hpoint, if_true]
    exact htext

theorem floatText_neg {x : Binary64} (hx : x.isFinite = true) (hsign : x.isNegative = true) :
    (floatText x).toList = '-' :: (floatText x.neg).toList := by
  rw [floatText, floatText, Binary64.textWith_neg hx hsign]
  have hpoint : ∀ s : String, ("-" ++ s).toList.contains '.' = s.toList.contains '.' := by
    intro s
    simp [String.toList_append]
  simp only [hpoint]
  split
  · simp [String.toList_append]
  · simp [String.toList_append]

theorem readFloat_chars (negative : Bool) (t : DecimalText) {text : String}
    (htext : text.toList = (if negative then ['-'] else []) ++ t.chars) :
    ScalarValue.float text = .ok (.float (if negative then (Binary64.ofDecimal false t.digits t.scale).neg
      else Binary64.ofDecimal false t.digits t.scale)) := by
  have hunsigned := isUnsigned_chars t
  have hall := hunsigned.signed_chars negative
  have hlower : (Text.lower text).toList = (if negative then ['-'] else []) ++ t.chars := by
    rw [← String.ofList_toList (s := text), htext, lower_eq hall, String.toList_ofList]
  have hcolon : t.chars.contains ':' = false := by
    have hno : ':' ∉ t.chars := fun h => absurd (hunsigned.chars ':' h) (by decide)
    simpa using hno
  have hword : ∀ w : List Char, w.head? = some '.' → (t.chars == w) = false := by
    intro w hw
    obtain ⟨d, ds, hcs, hd⟩ := hunsigned.head
    rw [beq_eq_false_iff_ne]
    rintro rfl
    rw [hcs] at hw
    exact Numeral.ne_of_isDigit hd rfl (Option.some.inj hw)
  rw [ScalarValue.float, hlower, filter_numberChars hall, hunsigned.signed_eq]
  simp only [bind, Except.bind, hword ".inf".toList rfl, hword ".nan".toList rfl, hcolon, Bool.false_eq_true, if_false,
    ScalarValue.decimal, read?_chars]
  rfl

/-- What is written for a number is read as the number. -/
theorem readFloat_floatText (x : Binary64) :
    ScalarValue.float (floatText x) = .ok ((Value.float x).withNaN ScalarValue.notANumber) := by
  rw [Value.withNaN]
  by_cases hnan : x.isNaN = true
  · have htext : floatText x = ".nan" := by simp [floatText, Binary64.textWith, hnan]
    rw [htext, if_pos hnan]
    rfl
  · rw [if_neg hnan]
    by_cases hinf : x.isInfinite = true
    · have htext : floatText x = if x.isNegative then "-.inf" else ".inf" := by
        cases hsign : x.isNegative <;> simp [floatText, Binary64.textWith, hnan, hinf, hsign]
      have hx := Binary64.eq_infinity hinf
      rw [htext]
      cases hsign : x.isNegative with
      | true =>
        rw [hsign] at hx
        rw [hx]
        rfl
      | false =>
        rw [hsign] at hx
        rw [hx]
        rfl
    · have hfinite := Binary64.isFinite_of_not_special hnan hinf
      cases hsign : x.isNegative with
      | true =>
        obtain ⟨hsignNeg, hfield, -⟩ := Binary64.fields_neg hfinite
        have hfiniteNeg : x.neg.isFinite = true := by rwa [Binary64.isFinite, hfield]
        obtain ⟨t, -, htext, hread⟩ := exists_floatText hfiniteNeg
        rw [hsignNeg, hsign, Bool.not_true] at htext hread
        have hminus : (floatText x).toList = (if true then ['-'] else []) ++ t.chars := by
          rw [floatText_neg hfinite hsign, htext]
          rfl
        rw [readFloat_chars true t hminus, if_pos rfl, hread, Binary64.neg_neg_of_isFinite hfinite]
      | false =>
        obtain ⟨t, -, htext, hread⟩ := exists_floatText hfinite
        rw [hsign] at htext hread
        rw [readFloat_chars false t htext, if_neg Bool.false_ne_true, hread]

end

/-! Scalars. -/

/-- A scalar that is written as it is, and read as the value. -/
structure IsScalarOf (t : Tag) (text : String) (v : Value) : Prop where
  untagged : Node.IsUntagged false t text
  reads : t.valueOf text = .ok v

theorem isUntagged_of_plain {t : Tag} {text : String} (hbinary : t ≠ .binary) (hnull : t ≠ .null)
    (htag : Tag.ofPlain text = t) (hplain : (TextForms.ofText text.toList).plain = true) :
    Node.IsUntagged false t text := by
  refine .inr ⟨by simp [Node.form, hbinary, htag, hplain], ?_⟩
  rintro rfl
  exact hnull (htag.symm.trans (by decide))

theorem isScalarOf_null : IsScalarOf .null "null" .null := ⟨.inr (by decide), rfl⟩

theorem isScalarOf_bool (b : Bool) : IsScalarOf .bool (if b then "true" else "false") (.bool b) := by
  cases b with
  | true => exact ⟨.inr (by decide), rfl⟩
  | false => exact ⟨.inr (by decide), rfl⟩

theorem isScalarOf_int {n : Int} (h : Numeral.isWritable n = true) : IsScalarOf .int (toString n) (.int n) := by
  have hunsigned := IsUnsigned.of_areDigits (Numeral.areDigits_toDigits n.natAbs) Nat.toDigits_ne_nil
  have hplain : (TextForms.ofText (toString n).toList).plain = true := toList_numeral n ▸ hunsigned.plain _
  exact ⟨isUntagged_of_plain (by simp) (by simp) (ofPlain_toString n) hplain, readInt_toString h⟩

theorem isScalarOf_float (x : Binary64) :
    IsScalarOf .float (floatText x) ((Value.float x).withNaN ScalarValue.notANumber) := by
  refine ⟨?_, readFloat_floatText x⟩
  by_cases hnan : x.isNaN = true
  · have htext : floatText x = ".nan" := by simp [floatText, Binary64.textWith, hnan]
    rw [htext]
    exact .inr (by decide)
  · by_cases hinf : x.isInfinite = true
    · have htext : floatText x = if x.isNegative then "-.inf" else ".inf" := by
        cases hsign : x.isNegative <;> simp [floatText, Binary64.textWith, hnan, hinf, hsign]
      rw [htext]
      cases x.isNegative with
      | true => exact .inr (by decide)
      | false => exact .inr (by decide)
    · obtain ⟨t, hdecimals, htext, -⟩ := exists_floatText (Binary64.isFinite_of_not_special hnan hinf)
      have hplain : (TextForms.ofText (floatText x).toList).plain = true := htext ▸ (isUnsigned_chars t).plain _
      exact isUntagged_of_plain (by simp) (by simp) (ofPlain_chars _ hdecimals htext) hplain

theorem isScalarOf_str (s : String) : IsScalarOf .str s (.str s) := ⟨.inl rfl, rfl⟩

end TopologyConfig.Yaml
