import TopologyConfig.Proofs.Number.Shortest

/-!
Numbers in digits. The text of a finite number is a decimal whose size rounds to the number, and every decimal of this
size, wherever its point stands and whatever its exponent is, is read as the number.
-/
namespace TopologyConfig.Binary64

open Numeral (AreDigits)

/-- An unsigned decimal as it is written: the sign of its exponent is always there, the point only before digits. -/
structure DecimalText where
  whole : List Char
  decimals : List Char
  /-- The exponent's digits, and whether it is negative. -/
  exponent : Option (Bool × List Char)
  digits_whole : AreDigits whole
  digits_decimals : AreDigits decimals
  digits_exponent : ∀ e ∈ exponent, AreDigits e.2 ∧ e.2 ≠ [] ∧ e.2.length ≤ 9
  whole_ne_nil : whole ≠ []
  /-- A zero in front stands alone. -/
  whole_eq_zero : whole.head? = some '0' → whole = ['0']

namespace DecimalText

def pointChars (t : DecimalText) : List Char := if t.decimals = [] then [] else '.' :: t.decimals

def exponentChars (t : DecimalText) : List Char :=
  match t.exponent with
  | none => []
  | some (negative, ds) => 'e' :: (if negative then '-' else '+') :: ds

def chars (t : DecimalText) : List Char := t.whole ++ t.pointChars ++ t.exponentChars

def exponentValue (t : DecimalText) : ℤ :=
  match t.exponent with
  | none => 0
  | some (negative, ds) => if negative then -(Nat.ofDigitChars 10 ds 0 : ℤ) else Nat.ofDigitChars 10 ds 0

def digits (t : DecimalText) : ℕ := Nat.ofDigitChars 10 (t.whole ++ t.decimals) 0

/-- The power of ten that the last digit counts. -/
def scale (t : DecimalText) : ℤ := t.exponentValue - t.decimals.length

def size (t : DecimalText) : ℚ := t.digits * 10 ^ t.scale

/-- A point or an exponent tells the decimal from a whole number. -/
def HasMark (t : DecimalText) : Prop := t.decimals ≠ [] ∨ t.exponent ≠ none

end DecimalText

section

variable {cs rest : List Char}

theorem takeWhile_isDigit (h : AreDigits cs) (hrest : ∀ c ∈ rest.head?, c.isDigit = false) :
    (cs ++ rest).takeWhile Char.isDigit = cs := by
  have hnil : rest.takeWhile Char.isDigit = [] := by
    cases rest with
    | nil => rfl
    | cons c rest => exact List.takeWhile_cons_of_neg (by simp [hrest c rfl])
  rw [List.takeWhile_append_of_pos h, hnil, List.append_nil]

theorem dropWhile_isDigit (h : AreDigits cs) (hrest : ∀ c ∈ rest.head?, c.isDigit = false) :
    (cs ++ rest).dropWhile Char.isDigit = rest := by
  rw [List.dropWhile_append_of_pos h]
  cases rest with
  | nil => rfl
  | cons c rest => exact List.dropWhile_cons_of_neg (by simp [hrest c rfl])

theorem ofDigitChars_dropWhile_zero (cs : List Char) :
    Nat.ofDigitChars 10 (cs.dropWhile (· == '0')) 0 = Nat.ofDigitChars 10 cs 0 := by
  induction cs with
  | nil => rfl
  | cons c cs ih =>
    by_cases hc : c = '0'
    · subst hc
      rw [List.dropWhile_cons_of_pos rfl, ih]
      rfl
    · rw [List.dropWhile_cons_of_neg (by simpa using hc)]

theorem clipExponent_eq {negative : Bool} (h : AreDigits cs) (hlen : cs.length ≤ 9) :
    clipExponent negative cs =
      if negative then -(Nat.ofDigitChars 10 cs 0 : ℤ) else (Nat.ofDigitChars 10 cs 0 : ℤ) := by
  have hdigits : AreDigits (cs.dropWhile (· == '0')) := fun c hc => h c (List.dropWhile_subset _ hc)
  have hshort : ¬ (cs.dropWhile (· == '0')).length > 9 := by
    have := (List.dropWhile_sublist (· == '0') (l := cs)).length_le
    omega
  simp only [clipExponent, if_neg hshort, Numeral.value_eq_ofDigitChars hdigits, ofDigitChars_dropWhile_zero,
    Int.ofNat_eq_natCast]

end

namespace DecimalText

variable (t : DecimalText)

theorem head?_exponentChars : ∀ c ∈ t.exponentChars.head?, c = 'e' := by
  unfold exponentChars
  intro c hc
  split at hc
  · cases hc
  · exact (Option.some.inj hc).symm

theorem readExponent?_exponentChars : readExponent? t.exponentChars = some t.exponentValue := by
  have hdigits := t.digits_exponent
  unfold exponentChars exponentValue
  cases ht : t.exponent with
  | none => rfl
  | some e =>
    obtain ⟨negative, ds⟩ := e
    obtain ⟨hds, hne, hlen⟩ := hdigits (negative, ds) ht
    have hall : (!ds.isEmpty && ds.all Char.isDigit) = true := by
      simp only [Bool.and_eq_true, Bool.not_eq_true', List.isEmpty_eq_false_iff, List.all_eq_true]
      exact ⟨hne, hds⟩
    cases negative <;>
      simp [readExponent?, Numeral.splitSign, hall, clipExponent_eq hds hlen]

/-- A decimal is read with the parts it is written with. -/
theorem read?_chars : Literal.read? t.chars = some ⟨t.whole, t.decimals, t.exponentValue⟩ := by
  have hexp : ∀ c ∈ t.exponentChars.head?, c.isDigit = false := by
    intro c hc
    rw [t.head?_exponentChars c hc]
    rfl
  have hpoint : ∀ c ∈ (t.pointChars ++ t.exponentChars).head?, c.isDigit = false := by
    intro c hc
    unfold pointChars at hc
    split at hc
    · exact hexp c hc
    · rw [← Option.some.inj hc]
      rfl
  have hwhole : t.whole.isEmpty = false := List.isEmpty_eq_false_iff.mpr t.whole_ne_nil
  have hno : ∀ rest, t.exponentChars ≠ '.' :: rest := by
    intro rest h
    have := t.head?_exponentChars '.' (by rw [h]; rfl)
    cases this
  unfold Literal.read? chars
  simp only [List.append_assoc, takeWhile_isDigit t.digits_whole hpoint, dropWhile_isDigit t.digits_whole hpoint,
    hwhole, Bool.false_and, Bool.false_eq_true, if_false]
  by_cases hd : t.decimals = []
  · have hchars : t.pointChars ++ t.exponentChars = t.exponentChars := by
      rw [pointChars, if_pos hd, List.nil_append]
    rw [hchars]
    split
    · next rest h => exact absurd h (hno rest)
    · rw [t.readExponent?_exponentChars, hd]
      rfl
  · have hchars : t.pointChars ++ t.exponentChars = '.' :: (t.decimals ++ t.exponentChars) := by
      rw [pointChars, if_neg hd, List.cons_append]
    rw [hchars]
    simp only [takeWhile_isDigit t.digits_decimals hexp, dropWhile_isDigit t.digits_decimals hexp,
      t.readExponent?_exponentChars, Option.map_some]

theorem toBinary64_eq (negative : Bool) :
    Literal.toBinary64 ⟨t.whole, t.decimals, t.exponentValue⟩ negative = ofDecimal negative t.digits t.scale := by
  rw [Literal.toBinary64, Numeral.value_eq_ofDigitChars (t.digits_whole.append t.digits_decimals)]
  rfl

end DecimalText

section

variable {ds : List Char}

theorem ofDigitChars_append_zeros (cs : List Char) (n : ℕ) :
    Nat.ofDigitChars 10 (cs ++ List.replicate n '0') 0 = Nat.ofDigitChars 10 cs 0 * 10 ^ n := by
  rw [Nat.ofDigitChars_append, Nat.ofDigitChars_replicate_zero, Nat.mul_comm]

theorem ofDigitChars_lt (h : AreDigits ds) : Nat.ofDigitChars 10 ds 0 < 10 ^ ds.length := by
  induction ds with
  | nil => decide
  | cons c cs ih =>
    obtain ⟨hc, hcs⟩ := List.forall_mem_cons.mp h
    obtain ⟨hlow, hhigh⟩ := Numeral.toNat_of_isDigit hc
    have hzero : '0'.toNat = 48 := rfl
    have hdigit : c.toNat - 48 ≤ 9 := by omega
    have hmul := Nat.mul_le_mul_left (10 ^ cs.length) hdigit
    have hrest := ih hcs
    rw [Nat.ofDigitChars_cons, Nat.ofDigitChars_eq_ofDigitChars_zero, List.length_cons, pow_succ, Nat.mul_zero,
      Nat.zero_add, hzero]
    omega

theorem le_ofDigitChars (h : AreDigits ds) (hne : ds ≠ []) (hhead : ds.head? ≠ some '0') :
    10 ^ (ds.length - 1) ≤ Nat.ofDigitChars 10 ds 0 := by
  cases ds with
  | nil => exact absurd rfl hne
  | cons c cs =>
    obtain ⟨hlow, hhigh⟩ := Numeral.toNat_of_isDigit (h c List.mem_cons_self)
    have hzero : '0'.toNat = 48 := rfl
    have hdigit : 1 ≤ c.toNat - 48 := by
      by_contra hlt
      have hc : c = '0' := Char.toNat_inj.mp (by omega)
      exact hhead (by rw [hc]; rfl)
    have hmul := Nat.mul_le_mul_left (10 ^ cs.length) hdigit
    rw [Nat.ofDigitChars_cons, Nat.ofDigitChars_eq_ofDigitChars_zero, List.length_cons, Nat.add_sub_cancel, Nat.mul_zero,
      Nat.zero_add, hzero]
    omega

theorem digitText_map (h : AreDigits ds) : digitText (ds.map (fun c => c.toNat - 48)) = String.ofList ds := by
  have hback : ∀ c ∈ ds, Nat.digitChar (c.toNat - 48) = c := by
    intro c hc
    obtain ⟨hlow, hhigh⟩ := Numeral.toNat_of_isDigit (h c hc)
    apply Char.toNat_inj.mp
    rw [Nat.toNat_digitChar_of_lt_ten (by omega)]
    omega
  rw [digitText, List.map_map]
  exact congrArg String.ofList ((List.map_congr_left hback).trans (List.map_id ds))

/-- The significant digits of a number: a zero does not lead them. -/
structure Significand where
  chars : List Char
  areDigits : AreDigits chars
  ne_nil : chars ≠ []
  head_ne_zero : chars.head? ≠ some '0'

namespace Significand

variable (s : Significand)

def values : List ℕ := s.chars.map (fun c => c.toNat - 48)

def value : ℕ := Nat.ofDigitChars 10 s.chars 0

theorem value_lt : s.value < 10 ^ s.chars.length := ofDigitChars_lt s.areDigits

theorem le_value : 10 ^ (s.chars.length - 1) ≤ s.value := le_ofDigitChars s.areDigits s.ne_nil s.head_ne_zero

theorem length_pos : 0 < s.chars.length := List.length_pos_iff.mpr s.ne_nil

theorem take_areDigits (n : ℕ) : AreDigits (s.chars.take n) := fun c hc => s.areDigits c (List.take_subset n _ hc)

theorem drop_areDigits (n : ℕ) : AreDigits (s.chars.drop n) := fun c hc => s.areDigits c (List.drop_subset n _ hc)

theorem digitText_values : digitText s.values = String.ofList s.chars := digitText_map s.areDigits

theorem digitText_take (n : ℕ) : digitText (s.values.take n) = String.ofList (s.chars.take n) := by
  rw [values, ← List.map_take, digitText_map (s.take_areDigits n)]

theorem digitText_drop (n : ℕ) : digitText (s.values.drop n) = String.ofList (s.chars.drop n) := by
  rw [values, ← List.map_drop, digitText_map (s.drop_areDigits n)]

/-! The digits with a point before, behind or between them. -/

theorem forall_mem_none : ∀ e ∈ (none : Option (Bool × List Char)), AreDigits e.2 ∧ e.2 ≠ [] ∧ e.2.length ≤ 9 :=
  fun _ he => nomatch he

/-- Zeros and then the digits, behind the point. -/
def below (zeros : ℕ) : DecimalText where
  whole := ['0']
  decimals := List.replicate zeros '0' ++ s.chars
  exponent := none
  digits_whole := by simp [AreDigits, Char.isDigit]
  digits_decimals := (Numeral.areDigits_replicate_zero _).append s.areDigits
  digits_exponent := forall_mem_none
  whole_ne_nil := by simp
  whole_eq_zero := fun _ => rfl

theorem chars_below (zeros : ℕ) : (s.below zeros).chars = '0' :: '.' :: (List.replicate zeros '0' ++ s.chars) := by
  simp [below, DecimalText.chars, DecimalText.pointChars, DecimalText.exponentChars, s.ne_nil]

theorem size_below (zeros : ℕ) : (s.below zeros).size = s.value * 10 ^ (-(zeros : ℤ) - s.chars.length) := by
  have hdigits : (s.below zeros).digits = s.value := by
    calc (s.below zeros).digits = Nat.ofDigitChars 10 (List.replicate (zeros + 1) '0' ++ s.chars) 0 := rfl
      _ = s.value := by rw [Nat.ofDigitChars_append, Nat.ofDigitChars_replicate_zero, Nat.mul_zero, value]
  have hscale : (s.below zeros).scale = -(zeros : ℤ) - s.chars.length := by
    simp only [DecimalText.scale, DecimalText.exponentValue, below, List.length_append, List.length_replicate]
    omega
  rw [DecimalText.size, hdigits, hscale]

/-- The digits and then zeros, before the point. -/
def above (zeros : ℕ) : DecimalText where
  whole := s.chars ++ List.replicate zeros '0'
  decimals := ['0']
  exponent := none
  digits_whole := s.areDigits.append (Numeral.areDigits_replicate_zero _)
  digits_decimals := by simp [AreDigits, Char.isDigit]
  digits_exponent := forall_mem_none
  whole_ne_nil := by simp [s.ne_nil]
  whole_eq_zero := fun hzero => by
    rw [List.head?_append_of_ne_nil _ s.ne_nil] at hzero
    exact absurd hzero s.head_ne_zero

theorem chars_above (zeros : ℕ) : (s.above zeros).chars = s.chars ++ List.replicate zeros '0' ++ ['.', '0'] := by
  simp [above, DecimalText.chars, DecimalText.pointChars, DecimalText.exponentChars]

theorem size_above (zeros : ℕ) : (s.above zeros).size = s.value * 10 ^ (zeros : ℤ) := by
  have hdigits : (s.above zeros).digits = s.value * 10 ^ (zeros + 1) := by
    calc (s.above zeros).digits = Nat.ofDigitChars 10 (s.chars ++ List.replicate zeros '0' ++ ['0']) 0 := rfl
      _ = s.value * 10 ^ (zeros + 1) := by
        rw [List.append_assoc, ← List.replicate_succ', ofDigitChars_append_zeros, value]
  have hscale : (s.above zeros).scale = -1 := rfl
  rw [DecimalText.size, hdigits, hscale, Nat.cast_mul, Nat.cast_pow, pow_succ, zpow_neg_one, zpow_natCast, Nat.cast_ofNat]
  ring

/-- The point behind some of the digits, and perhaps an exponent. -/
def divided (n : ℕ) (hn : 0 < n) (exponent : Option (Bool × List Char))
    (he : ∀ e ∈ exponent, AreDigits e.2 ∧ e.2 ≠ [] ∧ e.2.length ≤ 9) : DecimalText where
  whole := s.chars.take n
  decimals := s.chars.drop n
  exponent := exponent
  digits_whole := s.take_areDigits n
  digits_decimals := s.drop_areDigits n
  digits_exponent := he
  whole_ne_nil := fun hnil => (List.take_eq_nil_iff.mp hnil).elim hn.ne' s.ne_nil
  whole_eq_zero := fun hzero => by
    rw [List.head?_take, if_neg hn.ne'] at hzero
    exact absurd hzero s.head_ne_zero

theorem size_divided {n : ℕ} (hn : 0 < n) {exponent : Option (Bool × List Char)}
    (he : ∀ e ∈ exponent, AreDigits e.2 ∧ e.2 ≠ [] ∧ e.2.length ≤ 9) :
    (s.divided n hn exponent he).size =
      s.value * 10 ^ ((s.divided n hn exponent he).exponentValue - (s.chars.length - n : ℕ)) := by
  rw [DecimalText.size, DecimalText.digits, DecimalText.scale, value]
  simp only [divided, List.take_append_drop, List.length_drop]

end Significand

/-- The digits of a number end where its trailing zeros begin. -/
theorem exists_significantDigits {d : ℕ} (hd : d ≠ 0) : ∃ (s : Significand) (z : ℕ),
    significantDigits d = (s.values, s.chars.length + z) ∧ d = s.value * 10 ^ z := by
  have hall := Numeral.areDigits_toDigits d
  have hhead := Numeral.toDigits_ne_zero_head hd
  have hne : Nat.toDigits 10 d ≠ [] := Nat.toDigits_ne_nil
  have hvalue : Nat.ofDigitChars 10 (Nat.toDigits 10 d) 0 = d := Nat.ofDigitChars_ten_toDigits
  have hsignificant : significantDigits d =
      ((((Nat.toDigits 10 d).reverse.dropWhile (fun c => c.toNat - 48 == 0)).reverse.map fun c => c.toNat - 48),
        (Nat.toDigits 10 d).length) := by
    simp only [significantDigits, ← List.map_reverse, List.dropWhile_map, List.length_map]
    rfl
  rw [hsignificant]
  generalize Nat.toDigits 10 d = all at hall hhead hne hvalue ⊢
  have hzeros : all.reverse.takeWhile (fun c => c.toNat - 48 == 0) =
      List.replicate (all.reverse.takeWhile (fun c => c.toNat - 48 == 0)).length '0' := by
    refine List.eq_replicate_iff.mpr ⟨rfl, fun c hc => ?_⟩
    have hdigit := Numeral.toNat_of_isDigit (hall c (List.mem_reverse.mp (List.takeWhile_subset _ hc)))
    have hzero := List.mem_takeWhile_imp hc
    simp only [beq_iff_eq] at hzero
    exact Char.toNat_inj.mp (by rw [show '0'.toNat = 48 from rfl]; omega)
  generalize hz : (all.reverse.takeWhile (fun c => c.toNat - 48 == 0)).length = z at hzeros
  generalize hrest : all.reverse.dropWhile (fun c => c.toNat - 48 == 0) = rest
  have hsplit : all = rest.reverse ++ List.replicate z '0' := by
    rw [← List.reverse_reverse all, ← List.takeWhile_append_dropWhile (p := fun c => c.toNat - 48 == 0)
      (l := all.reverse), hzeros, hrest, List.reverse_append, List.reverse_replicate]
  have hdigits : AreDigits rest.reverse := fun c hc => hall c (by rw [hsplit]; exact List.mem_append_left _ hc)
  have hrest_ne : rest.reverse ≠ [] := by
    intro hnil
    rw [hsplit, hnil, List.nil_append] at hhead hne
    cases z with
    | zero => exact hne rfl
    | succ z => exact hhead rfl
  have hrest_head : rest.reverse.head? ≠ some '0' := by
    rwa [hsplit, List.head?_append_of_ne_nil _ hrest_ne] at hhead
  refine ⟨⟨rest.reverse, hdigits, hrest_ne, hrest_head⟩, z, ?_, ?_⟩
  · rw [hsplit, List.length_append, List.length_replicate]
    rfl
  · rw [Significand.value, ← ofDigitChars_append_zeros, ← hsplit, hvalue]

/-- The exponent of a decimal in scientific form. -/
theorem exists_exponentText {e : ℤ} (he : e.natAbs < 10 ^ 9) : ∃ (negative : Bool) (ds : List Char),
    (exponentText e).toList = (if negative then '-' else '+') :: ds ∧ AreDigits ds ∧ ds ≠ [] ∧ ds.length ≤ 9 ∧
    (if negative then -(Nat.ofDigitChars 10 ds 0 : ℤ) else (Nat.ofDigitChars 10 ds 0 : ℤ)) = e := by
  have hdigits := Numeral.areDigits_toDigits e.natAbs
  have hne : Nat.toDigits 10 e.natAbs ≠ [] := Nat.toDigits_ne_nil
  have hlen : (Nat.toDigits 10 e.natAbs).length ≤ 9 := (Nat.length_toDigits_le_iff (by decide) (by decide)).mpr he
  have hvalue : Nat.ofDigitChars 10 (Nat.toDigits 10 e.natAbs) 0 = e.natAbs := Nat.ofDigitChars_ten_toDigits
  have htext : (toString e.natAbs).toList = Nat.toDigits 10 e.natAbs := Nat.toList_repr
  have hlength : (toString e.natAbs).length = (Nat.toDigits 10 e.natAbs).length := by
    rw [← htext, String.length_toList]
  have hsign : ((if e < 0 then "-" else "+" : String)).toList = [if decide (e < 0) = true then '-' else '+'] := by
    by_cases hneg : e < 0 <;> simp [hneg]
  have habs : (if decide (e < 0) = true then -(e.natAbs : ℤ) else (e.natAbs : ℤ)) = e := by
    by_cases hneg : e < 0 <;> simp only [hneg, decide_true, decide_false, if_true, Bool.false_eq_true, if_false] <;> omega
  unfold exponentText
  simp only [hlength]
  generalize Nat.toDigits 10 e.natAbs = ds at *
  by_cases hone : ds.length < 2
  · refine ⟨decide (e < 0), '0' :: ds, ?_, ?_, List.cons_ne_nil _ _, ?_, ?_⟩
    · rw [if_pos hone, String.toList_append, String.toList_append, hsign, htext]
      rfl
    · exact List.forall_mem_cons.mpr ⟨rfl, hdigits⟩
    · rw [List.length_cons]
      omega
    · rw [Nat.ofDigitChars_cons]
      simpa [hvalue] using habs
  · refine ⟨decide (e < 0), ds, ?_, hdigits, hne, hlen, ?_⟩
    · rw [if_neg hone, String.toList_append, hsign, htext]
      rfl
    · rw [hvalue]
      exact habs

/-- A decimal is written in one of four ways: the point before, behind or between the digits, or an exponent. -/
theorem exists_decimalText (s : Significand) {p : ℤ} (hp : (p - 1).natAbs < 10 ^ 9) : ∃ t : DecimalText,
    (ShortDecimal.text ⟨s.values, p⟩).toList = t.chars ∧ t.HasMark ∧ t.size = s.value * 10 ^ (p - s.chars.length) := by
  have hpos := s.length_pos
  have hlength : s.values.length = s.chars.length := List.length_map _
  unfold ShortDecimal.text
  simp only [hlength, s.digitText_values, s.digitText_take, s.digitText_drop]
  split
  · split
    · refine ⟨s.below (-p).toNat, ?_, .inl (by simp [Significand.below, s.ne_nil]), ?_⟩
      · rw [s.chars_below]
        simp
      · rw [s.size_below, Int.toNat_of_nonneg (by omega), neg_neg]
    · split
      · refine ⟨s.above (p.toNat - s.chars.length), ?_, .inl (List.cons_ne_nil _ _), ?_⟩
        · rw [s.chars_above]
          simp
        · have hscale : ((p.toNat - s.chars.length : ℕ) : ℤ) = p - s.chars.length := by omega
          rw [s.size_above, hscale]
      · next hshort =>
        have hdecimals : s.chars.drop p.toNat ≠ [] := fun hnil => hshort (List.drop_eq_nil_iff.mp hnil)
        refine ⟨s.divided p.toNat (by omega) none Significand.forall_mem_none, ?_, .inl hdecimals, ?_⟩
        · simp [Significand.divided, DecimalText.chars, DecimalText.pointChars, DecimalText.exponentChars, hdecimals]
        · have hscale : (0 : ℤ) - (s.chars.length - p.toNat : ℕ) = p - s.chars.length := by omega
          rw [s.size_divided]
          simp only [DecimalText.exponentValue, Significand.divided, hscale]
  · obtain ⟨negative, es, hes, hdigits, hes_ne, hlen, hvalue⟩ := exists_exponentText hp
    refine ⟨s.divided 1 Nat.one_pos (some (negative, es)) (by simp [hdigits, hes_ne, hlen]), ?_,
      .inr (by simp [Significand.divided]), ?_⟩
    · have htail : s.chars.tail = [] ↔ ¬ s.chars.length > 1 := by
        rw [← List.drop_one, List.drop_eq_nil_iff, not_lt]
      by_cases hone : s.chars.length > 1 <;>
        simp [Significand.divided, DecimalText.chars, DecimalText.pointChars, DecimalText.exponentChars, hes, htail,
          hone]
    · have hscale : p - 1 - (s.chars.length - 1 : ℕ) = p - s.chars.length := by omega
      rw [s.size_divided]
      simp only [DecimalText.exponentValue, Significand.divided, hvalue, hscale]

end

section

variable {x : Binary64} (hx : x.isFinite = true)
include hx

/-- A number is in range, so its exponent has few digits. -/
theorem RoundsTo.natAbs_lt (hm : x.mantissa ≠ 0) {s : Significand} {p : ℤ}
    (h : x.RoundsTo (s.value * 10 ^ (p - s.chars.length))) : (p - 1).natAbs < 10 ^ 9 := by
  have hten : (1 : ℚ) < 10 := by norm_num
  have hless : (s.value : ℚ) * 10 ^ (p - s.chars.length) < 10 ^ p := by
    have hcast : (s.value : ℚ) < 10 ^ (s.chars.length : ℤ) := by exact_mod_cast s.value_lt
    calc (s.value : ℚ) * 10 ^ (p - s.chars.length)
        < 10 ^ (s.chars.length : ℤ) * 10 ^ (p - s.chars.length) := mul_lt_mul_of_pos_right hcast (ten_zpow_pos _)
      _ = 10 ^ p := by rw [← zpow_add₀ (by norm_num), add_sub_cancel]
  have hmore : (10 : ℚ) ^ (p - 1) ≤ s.value * 10 ^ (p - s.chars.length) := by
    have hcast : (10 : ℚ) ^ ((s.chars.length : ℤ) - 1) ≤ s.value := by
      have hexp : (s.chars.length : ℤ) - 1 = ((s.chars.length - 1 : ℕ) : ℤ) := by
        have := s.length_pos
        omega
      rw [hexp]
      exact_mod_cast s.le_value
    calc (10 : ℚ) ^ (p - 1) = 10 ^ ((s.chars.length : ℤ) - 1) * 10 ^ (p - s.chars.length) := by
          rw [← zpow_add₀ (by norm_num)]
          ring_nf
      _ ≤ s.value * 10 ^ (p - s.chars.length) := mul_le_mul_of_nonneg_right hcast (ten_zpow_pos _).le
  have h1 : -330 < p :=
    (zpow_lt_zpow_iff_right₀ hten).mp (ten_zpow_le_two_zpow.trans_lt ((h.min_le hx hm).trans_lt hless))
  have h2 : p - 1 < 310 :=
    (zpow_lt_zpow_iff_right₀ hten).mp (hmore.trans_lt ((h.lt_max hx).trans_le two_zpow_le_ten_zpow))
  omega

/-- The text of a number other than zero has a size that rounds to the number. -/
theorem exists_text_shortest (hm : x.mantissa ≠ 0) :
    ∃ t : DecimalText, x.shortest.text.toList = t.chars ∧ t.HasMark ∧ x.RoundsTo t.size := by
  obtain ⟨n, d, hd, hround, hshortest⟩ := exists_grid hx hm
  obtain ⟨s, z, hsignificant, hvalue⟩ := exists_significantDigits hd.ne'
  rw [hshortest, hsignificant]
  generalize decimalPoint x.quotient.1.natAbs x.quotient.2 = point at hround ⊢
  have hsize : (d : ℚ) * 10 ^ (point - (n : ℤ)) =
      s.value * 10 ^ (point + (((s.chars.length + z : ℕ) : ℤ) - n) - s.chars.length) := by
    have hexp : point + (((s.chars.length + z : ℕ) : ℤ) - n) - s.chars.length = z + (point - n) := by
      push_cast
      ring
    rw [hexp, zpow_add₀ (by norm_num), zpow_natCast, hvalue, Nat.cast_mul, Nat.cast_pow, mul_assoc]
    norm_num
  rw [hsize] at hround
  obtain ⟨t, htext, hmark, ht⟩ := exists_decimalText s (hround.natAbs_lt hx hm)
  exact ⟨t, htext, hmark, ht ▸ hround⟩

/-- A finite number is read back from its text, and from every other decimal of this size. -/
theorem exists_textWith (names : SpecialNames) : ∃ t : DecimalText,
    (x.textWith names).toList = (if x.isNegative then ['-'] else []) ++ t.chars ∧ t.HasMark ∧
      ∀ t' : DecimalText, t'.size = t.size → ofDecimal x.isNegative t'.digits t'.scale = x := by
  have hfield : x.exponentField ≠ 2047 := by simpa [isFinite] using hx
  have hnan : x.isNaN = false := by simp [isNaN, hfield]
  have hinfinite : x.isInfinite = false := by simp [isInfinite, hfield]
  have hsign (s : String) : (((if x.isNegative then "-" else "") ++ s : String)).toList =
      (if x.isNegative then ['-'] else []) ++ s.toList := by
    cases x.isNegative <;> simp
  simp only [textWith, hnan, hinfinite, Bool.false_eq_true, if_false, hsign]
  by_cases hm : x.mantissa = 0
  · refine ⟨⟨['0'], ['0'], none, by simp [AreDigits, Char.isDigit], by simp [AreDigits, Char.isDigit], by simp,
      by simp, by simp⟩, ?_, .inl (by simp), fun t' ht' => ?_⟩
    · rw [if_pos hm]
      rfl
    · have hzero : t'.digits = 0 := by
        have hp := ten_zpow_pos t'.scale
        have hsize : (t'.digits : ℚ) * 10 ^ t'.scale = 0 := by
          refine ht'.trans ?_
          simp [DecimalText.size, DecimalText.digits, Nat.ofDigitChars]
        exact_mod_cast (mul_eq_zero.mp hsize).resolve_right hp.ne'
      rcases finite_cases hx with ⟨-, -, hself⟩ | ⟨hlarge, -⟩
      · rw [hm] at hself
        rw [hzero, ofDecimal, if_pos rfl]
        exact hself
      · omega
  · obtain ⟨t, htext, hmark, hround⟩ := exists_text_shortest hx hm
    refine ⟨t, ?_, hmark, fun t' ht' => ofDecimal_of_roundsTo hx hm ?_⟩
    · rw [if_neg hm, htext]
    · have hsize : (t'.digits : ℚ) * 10 ^ t'.scale = t.size := ht'
      rw [hsize]
      exact hround

end

/-! Signs. -/

theorem fields_ofFields (negative : Bool) {f m : ℕ} (hf : f < 2 ^ 11) (hm : m < 2 ^ 52) :
    (ofFields negative f m).isNegative = negative ∧ (ofFields negative f m).exponentField = f ∧
      (ofFields negative f m).fraction = m := by
  have hsum : (if negative then Nat.pow 2 63 else 0) + f * Nat.pow 2 52 + m < 2 ^ 64 := by
    simp only [Nat.pow_eq, Nat.reducePow] at hf hm ⊢
    split <;> omega
  have hbits : (ofFields negative f m).bits.toNat = (if negative then Nat.pow 2 63 else 0) + f * Nat.pow 2 52 + m :=
    UInt64.toNat_ofNat_of_lt' hsum
  simp only [isNegative, exponentField, fraction, hbits]
  simp only [Nat.pow_eq, Nat.reducePow] at hf hm ⊢
  cases negative <;> simp <;> omega

/-- The other sign leaves the size of a finite number as it is. -/
theorem fields_neg {x : Binary64} (hx : x.isFinite = true) :
    x.neg.isNegative = !x.isNegative ∧ x.neg.exponentField = x.exponentField ∧ x.neg.fraction = x.fraction := by
  have hfield := exponentField_lt hx
  have hnan : x.isNaN = false := by
    simp only [isNaN]
    simp
    omega
  rw [neg, hnan, if_neg Bool.false_ne_true]
  exact fields_ofFields _ (by omega) (fraction_lt x)

theorem neg_neg_of_isFinite {x : Binary64} (hx : x.isFinite = true) : x.neg.neg = x := by
  obtain ⟨hsign, hfield, hfraction⟩ := fields_neg hx
  have hlimit := exponentField_lt hx
  have hnan : x.neg.isNaN = false := by
    simp only [isNaN, hfield]
    simp
    omega
  rw [neg, hnan, if_neg Bool.false_ne_true, hsign, hfield, hfraction, Bool.not_not, ofFields_fields]

theorem textWith_neg {x : Binary64} (hx : x.isFinite = true) (hsign : x.isNegative = true) (names : SpecialNames) :
    x.textWith names = "-" ++ x.neg.textWith names := by
  obtain ⟨hneg, hfield, hfraction⟩ := fields_neg hx
  have hmantissa : x.neg.mantissa = x.mantissa := by rw [mantissa, mantissa, hfield, hfraction]
  have hexponent : x.neg.exponent = x.exponent := by rw [exponent, exponent, hfield]
  have hquotient : x.neg.quotient.1.natAbs = x.quotient.1.natAbs ∧ x.neg.quotient.2 = x.quotient.2 := by
    simp [quotient, scaledTo, hmantissa, hexponent, hneg, hsign]
  have hinterval : x.neg.roundingInterval = x.roundingInterval := by
    rw [roundingInterval, roundingInterval, hmantissa, hfield, hexponent]
  have hshortest : x.neg.shortest = x.shortest := by
    rw [shortest, shortest, hinterval, hquotient.1, hquotient.2]
  have hlimit := exponentField_lt hx
  have hspecial : ∀ y : Binary64, y.exponentField = x.exponentField → y.isNaN = false ∧ y.isInfinite = false := by
    intro y hy
    simp [isNaN, isInfinite, hy]
    omega
  simp [textWith, hspecial x rfl, hspecial x.neg hfield, hneg, hsign, hmantissa, hshortest]

end TopologyConfig.Binary64
