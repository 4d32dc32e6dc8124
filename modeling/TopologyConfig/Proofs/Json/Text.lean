import TopologyConfig.Json.Printer
import TopologyConfig.Json.Reader
import TopologyConfig.Proofs.ConfigMap.Basic
import TopologyConfig.Proofs.Number.DecimalText
import TopologyConfig.Proofs.Value.Document

/-!
Strings and numbers in a JSON text. The reader undoes the escapes of a string one character after the other, and takes
a number apart where the writer joined its parts.
-/
namespace TopologyConfig.Json

open Binary64 (DecimalText)
open Numeral (AreDigits)

section

theorem hex4?_hex (rest : List Char) : ∀ n < 32, hex4? (Text.hex 4 n ++ rest) = some n := by
  intro n hn
  have hread : ∀ n < 32, ∃ a b c d, Text.hex 4 n = [a, b, c, d] ∧ hex4? [a, b, c, d] = some n ∧
      hex4? [a, b, c, d] = hex4? (a :: b :: c :: d :: rest) := by
    intro n hn
    refine ⟨_, _, _, _, rfl, ?_, rfl⟩
    revert n
    decide
  obtain ⟨a, b, c, d, hhex, hvalue, hmore⟩ := hread n hn
  rw [hhex, ← hvalue, hmore]
  rfl

/-- The reader undoes the escape of one character. -/
theorem readChars_escapeChar (start fuel : Nat) (c : Char) {rest : List Char} (hrest : rest ≠ []) (offset : Nat) :
    readChars start (fuel + 1) ⟨escapeChar c ++ rest, offset⟩ =
      (readChars start fuel ⟨rest, offset + (escapeChar c).length⟩).map fun p => (c :: p.1, p.2) := by
  unfold escapeChar
  split
  any_goals rfl
  next hquote hslash _ _ _ _ _ =>
    by_cases hc : c.toNat < 32
    · obtain ⟨d, ds, rfl⟩ := List.exists_cons_of_ne_nil hrest
      have hlong : ¬ (Text.hex 4 c.toNat ++ d :: ds).length ≤ 4 := by simp [Text.hex]
      have hunit : unitChar c.toNat = c := by
        rw [unitChar, if_neg (by simp; omega), Char.ofNat_toNat]
      have hlow : isHighSurrogate c.toNat = false := by
        simp [isHighSurrogate]
        omega
      have hread : readUnit ⟨'\\' :: 'u' :: (Text.hex 4 c.toNat ++ d :: ds), offset⟩ =
          .ok (c, ⟨d :: ds, offset + 6⟩) := by
        simp only [readUnit, Cursor.drop, List.drop_succ_cons, List.drop_zero, hlong, if_false, hex4?_hex _ _ hc, hlow,
          hunit]
        split <;> rfl
      rw [if_pos hc]
      simp only [List.cons_append, readChars, hread]
      rfl
    · rw [if_neg hc, List.singleton_append, readChars]
      dsimp only
      split
      · next h => cases h
      · next h => exact absurd (List.cons.inj h).1 hquote
      · next h => exact absurd (List.cons.inj h).1 hslash
      · next h => exact absurd (List.cons.inj h).1 hslash
      · next h => exact absurd (List.cons.inj h).1 hslash
      · next h =>
        cases h
        rw [if_neg hc]
        rfl

theorem readChars_flatMap (start : Nat) (cs rest : List Char) :
    ∀ fuel offset, cs.length < fuel → readChars start fuel ⟨cs.flatMap escapeChar ++ '"' :: rest, offset⟩ =
      .ok (cs, ⟨rest, offset + (cs.flatMap escapeChar).length + 1⟩) := by
  induction cs with
  | nil =>
    intro fuel offset hfuel
    obtain ⟨f, rfl⟩ := Nat.exists_eq_add_one_of_ne_zero (Nat.ne_zero_of_lt hfuel)
    rfl
  | cons c cs ih =>
    intro fuel offset hfuel
    obtain ⟨f, rfl⟩ := Nat.exists_eq_add_one_of_ne_zero (Nat.ne_zero_of_lt hfuel)
    have hlen : cs.length < f := Nat.lt_of_succ_lt_succ hfuel
    have hmore : cs.flatMap escapeChar ++ '"' :: rest ≠ [] := by simp
    rw [List.flatMap_cons, List.append_assoc, readChars_escapeChar start f c hmore, ih f _ hlen, List.length_append]
    simp only [Except.map, Nat.add_assoc]

theorem length_escapeChar_pos (c : Char) : 1 ≤ (escapeChar c).length := by
  unfold escapeChar
  repeat' split
  all_goals simp

theorem length_le_flatMap (cs : List Char) : cs.length ≤ (cs.flatMap escapeChar).length := by
  induction cs with
  | nil => exact Nat.le_refl 0
  | cons c cs ih =>
    have := length_escapeChar_pos c
    rw [List.flatMap_cons, List.length_append, List.length_cons]
    omega

/-- A string is read back from its text. -/
theorem readString_stringText (s : String) (rest : List Char) (offset : Nat) :
    readString ⟨stringText s ++ rest, offset⟩ = .ok (s, ⟨rest, offset + (stringText s).length⟩) := by
  have htext : stringText s ++ rest = '"' :: (s.toList.flatMap escapeChar ++ '"' :: rest) := by
    simp [stringText]
  have hlen : s.toList.length < (stringText s ++ rest).length + 1 := by
    have := length_le_flatMap s.toList
    rw [htext, List.length_cons, List.length_append]
    omega
  have hread := readChars_flatMap offset s.toList rest _ (offset + 1) hlen
  rw [readString, htext] at *
  simp only [Cursor.drop, List.drop_succ_cons, List.drop_zero, hread, Except.map, String.ofList_toList]
  simp [stringText, Nat.add_assoc, Nat.add_comm 1]

end

/-- Nothing that could continue a number follows. -/
def Ends (rest : List Char) : Prop := ∀ c ∈ rest.head?, c = ',' ∨ c = ']' ∨ c = '\x7d'

section

variable {rest : List Char}

theorem Ends.not_isDigit (h : Ends rest) : ∀ c ∈ rest.head?, c.isDigit = false := by
  intro c hc
  rcases h c hc with rfl | rfl | rfl <;> rfl

theorem Ends.exponentDigits (h : Ends rest) : exponentDigits rest = [] := by
  cases rest with
  | nil => rfl
  | cons c rest =>
    rcases h c rfl with rfl | rfl | rfl <;> cases rest <;> rfl

variable (t : DecimalText)

theorem wholeDigits_chars {after : List Char} (hafter : ∀ c ∈ after.head?, c.isDigit = false) :
    wholeDigits (t.whole ++ after) = t.whole := by
  by_cases hzero : t.whole.head? = some '0'
  · rw [t.whole_eq_zero hzero]
    rfl
  · obtain ⟨c, cs, hwhole⟩ := List.exists_cons_of_ne_nil t.whole_ne_nil
    have hc : c ≠ '0' := fun h => hzero (by rw [hwhole, h]; rfl)
    have hspan := Binary64.takeWhile_isDigit t.digits_whole hafter
    rw [hwhole, List.cons_append] at hspan ⊢
    rw [wholeDigits]
    · exact hspan
    · exact fun _ h => hc (List.cons.inj h).1

theorem decimalDigits_chars (h : Ends rest) :
    decimalDigits (t.pointChars ++ (t.exponentChars ++ rest)) = t.pointChars := by
  have hafter : ∀ c ∈ (t.exponentChars ++ rest).head?, c.isDigit = false ∧ c ≠ '.' := by
    intro c hc
    cases hexp : t.exponentChars with
    | nil =>
      rw [hexp] at hc
      rcases h c hc with rfl | rfl | rfl <;> decide
    | cons d ds =>
      rw [hexp] at hc
      have hd := t.head?_exponentChars d (by rw [hexp]; rfl)
      rw [← Option.some.inj hc, hd]
      decide
  unfold DecimalText.pointChars
  split
  · rw [List.nil_append]
    cases hrest : t.exponentChars ++ rest with
    | nil => rfl
    | cons c cs =>
      rw [hrest] at hafter
      rw [decimalDigits]
      exact fun d ds h => (hafter c rfl).2 (List.cons.inj h).1
  · next hne =>
    obtain ⟨d, ds, hdecimals⟩ := List.exists_cons_of_ne_nil hne
    have hdigits := t.digits_decimals
    rw [hdecimals] at hdigits ⊢
    obtain ⟨hd, hds⟩ := List.forall_mem_cons.mp hdigits
    simp only [List.cons_append, decimalDigits, hd, if_true,
      Binary64.takeWhile_isDigit hds fun c hc => (hafter c hc).1]

theorem exponentDigits_chars (h : Ends rest) : exponentDigits (t.exponentChars ++ rest) = t.exponentChars := by
  have hdigits := t.digits_exponent
  unfold DecimalText.exponentChars
  cases ht : t.exponent with
  | none => exact h.exponentDigits
  | some e =>
    obtain ⟨negative, ds⟩ := e
    obtain ⟨hds, hne, -⟩ := hdigits (negative, ds) ht
    have hspan := Binary64.takeWhile_isDigit hds h.not_isDigit
    cases negative <;> simp [exponentDigits, hspan, hne]

theorem isDigit_eq_false_of_mark (h : Ends rest) :
    ∀ c ∈ (t.pointChars ++ (t.exponentChars ++ rest)).head?, c.isDigit = false := by
  intro c hc
  cases hpoint : t.pointChars with
  | nil =>
    rw [hpoint, List.nil_append] at hc
    cases hexp : t.exponentChars with
    | nil =>
      rw [hexp] at hc
      exact h.not_isDigit c hc
    | cons d ds =>
      rw [hexp] at hc
      rw [← Option.some.inj hc, t.head?_exponentChars d (by rw [hexp]; rfl)]
      rfl
  | cons d ds =>
    rw [hpoint] at hc
    have hd : d = '.' := by
      unfold DecimalText.pointChars at hpoint
      split at hpoint
      · cases hpoint
      · exact (List.cons.inj hpoint).1.symm
    rw [← Option.some.inj hc, hd]
    rfl

/-- The parts of a number are told from each other, and from what follows. -/
theorem splitNumber?_chars (negative : Bool) (h : Ends rest) :
    splitNumber? ((if negative then ['-'] else []) ++ (t.chars ++ rest)) =
      some ⟨negative, t.whole, t.pointChars, t.exponentChars⟩ := by
  have hbody : t.chars ++ rest = t.whole ++ (t.pointChars ++ (t.exponentChars ++ rest)) := by
    simp [DecimalText.chars]
  have hsign : (((if negative then ['-'] else []) ++ (t.chars ++ rest)).head? == some '-') = negative := by
    cases negative with
    | true => rfl
    | false =>
      obtain ⟨c, cs, hwhole⟩ := List.exists_cons_of_ne_nil t.whole_ne_nil
      have hc : c ≠ '-' := Numeral.ne_of_isDigit (t.digits_whole c (by rw [hwhole]; exact List.mem_cons_self)) rfl
      rw [hbody, hwhole]
      simp [hc]
  have hdrop : (if negative then ((if negative then ['-'] else []) ++ (t.chars ++ rest)).drop 1
      else (if negative then ['-'] else []) ++ (t.chars ++ rest)) = t.chars ++ rest := by
    cases negative <;> rfl
  have hne : t.whole.isEmpty = false := List.isEmpty_eq_false_iff.mpr t.whole_ne_nil
  have hlen : t.whole.length + t.pointChars.length = (t.whole ++ t.pointChars).length := List.length_append.symm
  unfold splitNumber?
  simp only [hsign, hdrop]
  rw [hbody]
  simp only [wholeDigits_chars t (isDigit_eq_false_of_mark t h), hne, Bool.false_eq_true, if_false, List.drop_left,
    decimalDigits_chars t h, hlen]
  rw [← List.append_assoc, List.drop_left, exponentDigits_chars t h]

theorem length_chars (negative : Bool) :
    NumberParts.length ⟨negative, t.whole, t.pointChars, t.exponentChars⟩ =
      ((if negative then ['-'] else []) ++ t.chars).length := by
  cases negative <;> simp [NumberParts.length, DecimalText.chars, Nat.add_assoc, Nat.add_comm 1]

/-- A number is none of the words. -/
theorem find?_words_chars (negative : Bool) (after : List Char) :
    words.find? (fun w => w.1.isPrefixOf ((if negative then ['-'] else []) ++ (t.chars ++ after))) = none := by
  obtain ⟨c, cs, hwhole⟩ := List.exists_cons_of_ne_nil t.whole_ne_nil
  have hdigit : c.isDigit = true := t.digits_whole c (by rw [hwhole]; exact List.mem_cons_self)
  have hletter : ∀ d : Char, d.isDigit = false → (d == c) = false := fun d hd =>
    beq_eq_false_iff_ne.mpr (Numeral.ne_of_isDigit hdigit hd).symm
  have hchars : t.chars ++ after = c :: (cs ++ t.pointChars ++ t.exponentChars ++ after) := by
    simp [DecimalText.chars, hwhole]
  rw [hchars]
  cases negative with
  | true =>
    simp [words, List.isPrefixOf, hletter 'I' rfl]
  | false =>
    simp [words, List.isPrefixOf, hletter 'n' rfl, hletter 't' rfl, hletter 'f' rfl, hletter 'N' rfl, hletter 'I' rfl,
      hletter '-' rfl]

/-- A number is read whole. -/
theorem readScalar_chars (negative : Bool) (h : Ends rest) (offset : Nat) {v : Value}
    (hv : NumberParts.value ⟨negative, t.whole, t.pointChars, t.exponentChars⟩ = .ok v) :
    readScalar ⟨(if negative then ['-'] else []) ++ t.chars ++ rest, offset⟩ =
      .ok (v, ⟨rest, offset + ((if negative then ['-'] else []) ++ t.chars).length⟩) := by
  have hsplit := splitNumber?_chars t negative h
  have hword := find?_words_chars t negative rest
  rw [← List.append_assoc] at hsplit hword
  simp only [readScalar, hword, hsplit, hv, length_chars, Cursor.drop, List.drop_left]

end

/-- The decimal of a whole number. -/
def wholeText (n : Nat) : DecimalText where
  whole := Nat.toDigits 10 n
  decimals := []
  exponent := none
  digits_whole := Numeral.areDigits_toDigits n
  digits_decimals := by simp [AreDigits]
  digits_exponent := by simp
  whole_ne_nil := Nat.toDigits_ne_nil
  whole_eq_zero := by
    intro hzero
    by_cases hn : n = 0
    · rw [hn]
      rfl
    · exact absurd hzero (Numeral.toDigits_ne_zero_head hn)

theorem toList_toString (n : Int) :
    (toString n).toList = (if decide (n < 0) then ['-'] else []) ++ (wholeText n.natAbs).chars := by
  rw [Numeral.toList_toString]
  simp [DecimalText.chars, DecimalText.pointChars, DecimalText.exponentChars, wholeText]

section

variable {rest : List Char}

/-- A whole number is read back from its text. -/
theorem readScalar_int {n : Int} (hn : Numeral.isWritable n = true) (h : Ends rest) (offset : Nat) :
    readScalar ⟨(toString n).toList ++ rest, offset⟩ =
      .ok (.int n, ⟨rest, offset + (toString n).toList.length⟩) := by
  have hread := Numeral.read_toString hn
  have htext : String.ofList ((if decide (n < 0) then ['-'] else []) ++ Nat.toDigits 10 n.natAbs) = toString n := by
    rw [← String.ofList_toList (s := toString n), Numeral.toList_toString]
    simp
  rw [toList_toString]
  refine readScalar_chars (wholeText n.natAbs) (decide (n < 0)) h offset ?_
  have hplain : (wholeText n.natAbs).pointChars.isEmpty = true ∧ (wholeText n.natAbs).exponentChars.isEmpty = true := by
    simp [DecimalText.pointChars, DecimalText.exponentChars, wholeText]
  have hwhole : (wholeText n.natAbs).whole = Nat.toDigits 10 n.natAbs := rfl
  simp only [NumberParts.value, hplain.1, hplain.2, Bool.and_self, if_true, hwhole, htext, hread]
  rfl

theorem floatText_of_isFinite {x : Binary64} (hx : x.isFinite = true) :
    ∃ t : DecimalText, floatText x = (if x.isNegative then ['-'] else []) ++ t.chars ∧
      NumberParts.value ⟨x.isNegative, t.whole, t.pointChars, t.exponentChars⟩ = .ok (.float x) := by
  obtain ⟨t, htext, hmark, hread⟩ := Binary64.exists_textWith hx specialNames
  refine ⟨t, htext, ?_⟩
  have hfloat : (t.pointChars.isEmpty && t.exponentChars.isEmpty) = false := by
    rw [Bool.and_eq_false_iff]
    refine hmark.imp (fun hdecimals => ?_) fun hexponent => ?_
    · simp [DecimalText.pointChars, hdecimals]
    · obtain ⟨⟨negative, ds⟩, hsome⟩ := Option.ne_none_iff_exists'.mp hexponent
      simp [DecimalText.exponentChars, hsome]
  have hchars : t.whole ++ t.pointChars ++ t.exponentChars = t.chars := rfl
  simp only [NumberParts.value, hfloat, Bool.false_eq_true, if_false, hchars, t.read?_chars, t.toBinary64_eq,
    hread t rfl]

/-- A word is read as what it stands for. -/
theorem readScalar_word {word : List Char} {v : Value} (after : List Char)
    (hfind : words.find? (fun w => w.1.isPrefixOf (word ++ after)) = some (word, v)) (offset : Nat) :
    readScalar ⟨word ++ after, offset⟩ = .ok (v, ⟨after, offset + word.length⟩) := by
  simp only [readScalar, hfind, Cursor.drop, List.drop_left]

/-- A float is read back from its text; one that is no number, as the one that the reader has. -/
theorem readScalar_float (x : Binary64) (h : Ends rest) (offset : Nat) :
    readScalar ⟨floatText x ++ rest, offset⟩ =
      .ok ((Value.float x).withNaN (Binary64.nan 1), ⟨rest, offset + (floatText x).length⟩) := by
  rw [Value.withNaN]
  by_cases hnan : x.isNaN = true
  · have htext : floatText x = "NaN".toList := by simp [floatText, Binary64.textWith, hnan, specialNames]
    rw [if_pos hnan, htext]
    exact readScalar_word rest rfl offset
  · rw [if_neg hnan]
    by_cases hinf : x.isInfinite = true
    · have hself := Binary64.eq_infinity hinf
      cases hsign : x.isNegative with
      | true =>
        have htext : floatText x = "-Infinity".toList := by
          simp [floatText, Binary64.textWith, hnan, hinf, hsign, specialNames]
        have hfind : words.find? (fun w => w.1.isPrefixOf ("-Infinity".toList ++ rest)) =
            some ("-Infinity".toList, .float x) := by
          rw [hself, hsign]
          rfl
        rw [htext]
        exact readScalar_word rest hfind offset
      | false =>
        have htext : floatText x = "Infinity".toList := by
          simp [floatText, Binary64.textWith, hnan, hinf, hsign, specialNames]
        have hfind : words.find? (fun w => w.1.isPrefixOf ("Infinity".toList ++ rest)) =
            some ("Infinity".toList, .float x) := by
          rw [hself, hsign]
          rfl
        rw [htext]
        exact readScalar_word rest hfind offset
    · have hfinite := Binary64.isFinite_of_not_special hnan hinf
      obtain ⟨t, htext, hvalue⟩ := floatText_of_isFinite hfinite
      rw [htext]
      exact readScalar_chars t x.isNegative h offset hvalue

end

end TopologyConfig.Json
