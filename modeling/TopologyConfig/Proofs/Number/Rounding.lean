import Mathlib.Algebra.Order.Field.Power
import Mathlib.Data.Int.Log
import Mathlib.Data.Rat.Floor
import Mathlib.Tactic.FieldSimp
import Mathlib.Tactic.GCongr
import Mathlib.Tactic.Linarith
import Mathlib.Tactic.NormNum
import Mathlib.Tactic.Positivity
import Mathlib.Tactic.Ring
import TopologyConfig.Number.Decimal

/-!
Rounding to the nearest number. A quotient that lies in the interval of a finite number is rounded to this number,
and so is a decimal, however its digits and its exponent share its size.
-/
namespace TopologyConfig.Binary64

variable {x : Binary64}

theorem ofFields_fields (x : Binary64) : ofFields x.isNegative x.exponentField x.fraction = x := by
  obtain ⟨bits⟩ := x
  have hlt : bits.toNat < 2 ^ 64 := bits.toNat_lt
  have hsum : (if Nat.pow 2 63 ≤ bits.toNat then Nat.pow 2 63 else 0) +
      bits.toNat / Nat.pow 2 52 % Nat.pow 2 11 * Nat.pow 2 52 + bits.toNat % Nat.pow 2 52 = bits.toNat := by
    simp only [Nat.pow_eq, Nat.reducePow] at hlt ⊢
    split <;> omega
  simp only [ofFields, isNegative, exponentField, fraction, decide_eq_true_eq, hsum, UInt64.ofNat_toNat]

theorem fraction_lt (x : Binary64) : x.fraction < Nat.pow 2 52 := Nat.mod_lt _ (by decide)

theorem exponentField_lt (h : x.isFinite = true) : x.exponentField < 2047 := by
  have hlt : x.exponentField < Nat.pow 2 11 := Nat.mod_lt _ (by decide)
  have hne : x.exponentField ≠ 2047 := by simpa [isFinite] using h
  simp only [Nat.pow_eq, Nat.reducePow] at hlt
  omega

theorem isFinite_of_not_special (hnan : ¬ x.isNaN = true) (hinf : ¬ x.isInfinite = true) : x.isFinite = true := by
  by_cases hfield : x.exponentField = 2047
  · simp [isNaN, isInfinite, hfield] at hnan hinf
    exact absurd hnan hinf
  · simpa [isFinite] using hfield

theorem eq_infinity (h : x.isInfinite = true) : x = infinity x.isNegative := by
  have hx := ofFields_fields x
  simp only [isInfinite, Bool.and_eq_true, beq_iff_eq] at h
  rw [h.1, h.2] at hx
  exact hx.symm

/-- The two kinds of finite numbers: those with the least exponent, and those whose mantissa has all its bits. -/
theorem finite_cases (h : x.isFinite = true) :
    (x.mantissa < 2 ^ 52 ∧ x.exponent = -1074 ∧ ofFields x.isNegative 0 x.mantissa = x) ∨
    (2 ^ 52 ≤ x.mantissa ∧ x.mantissa < 2 ^ 53 ∧ -1074 ≤ x.exponent ∧ x.exponent < 972 ∧
      x.exponentField = (x.exponent + 1075).toNat ∧
      ofFields x.isNegative (x.exponent + 1075).toNat (x.mantissa - 2 ^ 52) = x) := by
  have hfraction := fraction_lt x
  have hfield := exponentField_lt h
  have hx := ofFields_fields x
  simp only [Nat.pow_eq, Nat.reducePow] at hfraction
  by_cases hzero : x.exponentField = 0
  · left
    have hmantissa : x.mantissa = x.fraction := if_pos hzero
    rw [hzero] at hx
    rw [hmantissa, exponent, hzero]
    exact ⟨by omega, by decide, hx⟩
  · right
    have hexponent : x.exponent + 1075 = Int.ofNat x.exponentField := by
      simp only [exponent, Int.ofNat_eq_natCast]
      omega
    have hmantissa : x.mantissa = 2 ^ 52 + x.fraction := by
      rw [mantissa, if_neg hzero, Nat.pow_eq]
    rw [hmantissa, hexponent, Nat.add_sub_cancel_left]
    simp only [Int.ofNat_eq_natCast, Int.toNat_natCast] at hexponent ⊢
    exact ⟨by omega, by omega, by omega, by omega, trivial, hx⟩

/-- The number is the nearest one to a positive quotient; the ends of its interval belong to it if its mantissa is
even. -/
def RoundsTo (x : Binary64) (v : ℚ) : Prop :=
  let i := x.roundingInterval
  i.low * 2 ^ i.exponent ≤ v ∧ v ≤ i.high * 2 ^ i.exponent ∧
    (i.closed = false → i.low * 2 ^ i.exponent < v ∧ v < i.high * 2 ^ i.exponent)

theorem two_zpow_pos (k : ℤ) : (0 : ℚ) < 2 ^ k := zpow_pos (by norm_num) k

theorem two_pow_mul_zpow (a : ℕ) (k : ℤ) : (2 : ℚ) ^ a * 2 ^ k = 2 ^ (a + k) := by
  rw [zpow_add₀ (by norm_num), zpow_natCast]

theorem cast_pow_div_pow (b : ℕ) (hb : 0 < b) (k : ℤ) :
    ((Nat.pow b k.toNat : ℕ) : ℚ) / (Nat.pow b (-k).toNat : ℕ) = (b : ℚ) ^ k := by
  have hne : (b : ℚ) ≠ 0 := Nat.cast_ne_zero.mpr hb.ne'
  rcases Int.le_total 0 k with hk | hk
  · obtain ⟨n, rfl⟩ := Int.eq_ofNat_of_zero_le hk
    simp
  · obtain ⟨n, hn⟩ := Int.eq_ofNat_of_zero_le (Int.neg_nonneg_of_nonpos hk)
    have hk : k = -(n : ℤ) := by omega
    subst hk
    simp

theorem cast_scaled (num den : ℕ) (k : ℤ) :
    ((num * Nat.pow 2 k.toNat : ℕ) : ℚ) / (den * Nat.pow 2 (-k).toNat : ℕ) = num / den * 2 ^ k := by
  have h := cast_pow_div_pow 2 (by decide) k
  rw [Nat.cast_mul, Nat.cast_mul, mul_div_mul_comm, h]
  norm_num

/-- Rounding gives the whole number that is less than a half away, or the even one of two that are a half away. -/
theorem roundHalfEven_eq {n d m : ℕ} (hd : 0 < d) (hlow : 2 * m * d ≤ 2 * n + d) (hhigh : 2 * n ≤ 2 * m * d + d)
    (hodd : m % 2 = 1 → 2 * m * d < 2 * n + d ∧ 2 * n < 2 * m * d + d) :
    roundHalfEven (n / d) (n % d) d = m := by
  have hn : n = d * (n / d) + n % d := (Nat.div_add_mod n d).symm
  have hr : n % d < d := Nat.mod_lt n hd
  generalize n / d = q at hn ⊢
  generalize n % d = r at hn hr ⊢
  subst hn
  have hge : q ≤ m := by
    by_contra hlt
    have hmul : (m + 1) * d ≤ q * d := Nat.mul_le_mul_right d (by omega)
    nlinarith
  have hle : m ≤ q + 1 := by
    by_contra hgt
    have hmul : (q + 2) * d ≤ m * d := Nat.mul_le_mul_right d (by omega)
    nlinarith
  rcases Nat.le_iff_lt_or_eq.mp hge with hlt | rfl
  · have hm : m = q + 1 := by omega
    subst hm
    have hhalf : d ≤ 2 * r := by nlinarith
    have hstrict : q % 2 = 0 → d < 2 * r := by
      intro heven
      have := (hodd (by omega)).1
      nlinarith
    unfold roundHalfEven
    rw [if_pos]
    simp only [Bool.or_eq_true, decide_eq_true_eq, Bool.and_eq_true, beq_iff_eq]
    omega
  · have hhalf : 2 * r ≤ d := by nlinarith
    have hstrict : q % 2 = 1 → 2 * r < d := by
      intro hq
      have := (hodd hq).2
      nlinarith
    unfold roundHalfEven
    rw [if_neg]
    simp only [Bool.or_eq_true, decide_eq_true_eq, Bool.and_eq_true, beq_iff_eq]
    omega

theorem roundHalfEven_of_near {n d m : ℕ} (hd : 0 < d) (hlow : (m : ℚ) - 1 / 2 ≤ n / d)
    (hhigh : (n : ℚ) / d ≤ m + 1 / 2) (hodd : m % 2 = 1 → (m : ℚ) - 1 / 2 < n / d ∧ (n : ℚ) / d < m + 1 / 2) :
    roundHalfEven (n / d) (n % d) d = m := by
  have hdq : (0 : ℚ) < d := Nat.cast_pos.mpr hd
  rw [le_div_iff₀ hdq] at hlow
  rw [div_le_iff₀ hdq] at hhigh
  refine roundHalfEven_eq hd ?_ ?_ fun hm => ?_
  · have : (2 * m * d : ℚ) ≤ 2 * n + d := by linarith
    exact_mod_cast this
  · have : (2 * n : ℚ) ≤ 2 * m * d + d := by linarith
    exact_mod_cast this
  · obtain ⟨hl, hh⟩ := hodd hm
    rw [lt_div_iff₀ hdq] at hl
    rw [div_lt_iff₀ hdq] at hh
    have hl' : (2 * m * d : ℚ) < 2 * n + d := by linarith
    have hh' : (2 * n : ℚ) < 2 * m * d + d := by linarith
    exact ⟨by exact_mod_cast hl', by exact_mod_cast hh'⟩

theorem div_lt_iff_cast {a b c : ℕ} (hb : 0 < b) : a / b < c ↔ (a : ℚ) / b < c := by
  rw [Nat.div_lt_iff_lt_mul hb, div_lt_iff₀ (Nat.cast_pos.mpr hb)]
  exact_mod_cast Iff.rfl

theorem zpow_log2_le {n : ℕ} (hn : 0 < n) : (2 : ℚ) ^ (n.log2 : ℤ) ≤ n := by
  have h := Nat.log2_self_le hn.ne'
  exact_mod_cast h

theorem lt_zpow_log2 (n : ℕ) : (n : ℚ) < 2 ^ ((n.log2 : ℤ) + 1) := by
  have h := Nat.lt_log2_self (n := n)
  exact_mod_cast h

/-- The logarithms of the two parts tell the one of the quotient up to one. -/
theorem log2_sub_log2 {num den : ℕ} (hn : 0 < num) (hd : 0 < den) :
    (2 : ℚ) ^ ((num.log2 : ℤ) - den.log2 - 1) < num / den ∧
      (num : ℚ) / den < 2 ^ ((num.log2 : ℤ) - den.log2 + 1) := by
  have hdq : (0 : ℚ) < den := Nat.cast_pos.mpr hd
  constructor
  · have hexp : (num.log2 : ℤ) - den.log2 - 1 = num.log2 - (den.log2 + 1) := by ring
    rw [lt_div_iff₀ hdq, hexp, zpow_sub₀ (by norm_num)]
    calc (2 : ℚ) ^ (num.log2 : ℤ) / 2 ^ ((den.log2 : ℤ) + 1) * den
        < 2 ^ (num.log2 : ℤ) / 2 ^ ((den.log2 : ℤ) + 1) * 2 ^ ((den.log2 : ℤ) + 1) := by
          gcongr
          exact lt_zpow_log2 den
      _ = 2 ^ (num.log2 : ℤ) := by field_simp
      _ ≤ num := zpow_log2_le hn
  · have hexp : (num.log2 : ℤ) - den.log2 + 1 = num.log2 + 1 - den.log2 := by ring
    rw [div_lt_iff₀ hdq, hexp, zpow_sub₀ (by norm_num)]
    calc (num : ℚ) < 2 ^ ((num.log2 : ℤ) + 1) := lt_zpow_log2 num
      _ = 2 ^ ((num.log2 : ℤ) + 1) / 2 ^ (den.log2 : ℤ) * 2 ^ (den.log2 : ℤ) := by field_simp
      _ ≤ 2 ^ ((num.log2 : ℤ) + 1) / 2 ^ (den.log2 : ℤ) * den := by
        gcongr
        exact zpow_log2_le hd

/-- The exponent is the greatest one under which the quotient has 53 bits before the point, or the least of all. -/
theorem ratioExponent_eq {num den : ℕ} (hn : 0 < num) (hd : 0 < den) {k : ℤ} (hlow : (2 : ℚ) ^ (52 + k) ≤ num / den)
    (hhigh : (num : ℚ) / den < 2 ^ (53 + k)) : ratioExponent num den = max k (-1074) := by
  have htwo : (1 : ℚ) < 2 := by norm_num
  obtain ⟨hlower, hupper⟩ := log2_sub_log2 hn hd
  have hle : 52 + k < (num.log2 : ℤ) - den.log2 + 1 := (zpow_lt_zpow_iff_right₀ htwo).mp (hlow.trans_lt hupper)
  have hge : (num.log2 : ℤ) - den.log2 - 1 < 53 + k := (zpow_lt_zpow_iff_right₀ htwo).mp (hlower.trans hhigh)
  have hlt (g : ℤ) (c : ℕ) : (scaledQuotient num den (-g)).1 < c ↔ (num : ℚ) / den < c * 2 ^ g := by
    have hpos : 0 < den * Nat.pow 2 (- -g).toNat := Nat.mul_pos hd (Nat.pow_pos (by decide))
    have hscale : (num : ℚ) / den * 2 ^ (-g) < c ↔ (num : ℚ) / den < c * 2 ^ g := by
      rw [zpow_neg, ← div_eq_mul_inv, div_lt_iff₀ (two_zpow_pos g)]
    rw [← hscale, ← cast_scaled]
    exact div_lt_iff_cast hpos
  have h52 : ((2 ^ 52 : ℕ) : ℚ) = 2 ^ (52 : ℤ) := by norm_num
  have h53 : ((2 ^ 53 : ℕ) : ℚ) = 2 ^ (53 : ℤ) := by norm_num
  unfold ratioExponent
  simp only [Int.ofNat_eq_natCast]
  generalize hg : (num.log2 : ℤ) - den.log2 - 52 = g
  obtain rfl | rfl : g = k ∨ g = k + 1 := by omega
  · have h1 : ¬ (scaledQuotient num den (-g)).1 < 2 ^ 52 := by
      rw [hlt, h52, ← zpow_add₀ (by norm_num), not_lt]
      exact hlow
    have h2 : (scaledQuotient num den (-g)).1 < 2 ^ 53 := by
      rw [hlt, h53, ← zpow_add₀ (by norm_num)]
      exact hhigh
    simp only [Nat.pow_eq, if_neg h1, if_pos h2]
  · have h1 : (scaledQuotient num den (-(k + 1))).1 < 2 ^ 52 := by
      rw [hlt, h52, ← zpow_add₀ (by norm_num)]
      have hexp : 52 + (k + 1) = 53 + k := by ring
      rw [hexp]
      exact hhigh
    simp only [Nat.pow_eq, if_pos h1, add_sub_cancel_right]

/-- A quotient under the exponent of its rounding, rounded. -/
theorem roundHalfEven_scaled {num den m : ℕ} (hd : 0 < den) {e : ℤ} (hlow : ((m : ℚ) - 1 / 2) * 2 ^ e ≤ num / den)
    (hhigh : (num : ℚ) / den ≤ (m + 1 / 2) * 2 ^ e)
    (hodd : m % 2 = 1 → ((m : ℚ) - 1 / 2) * 2 ^ e < num / den ∧ (num : ℚ) / den < (m + 1 / 2) * 2 ^ e) :
    let s := scaledQuotient num den (-e)
    roundHalfEven s.1 s.2.1 s.2.2 = m := by
  have hpos : 0 < den * Nat.pow 2 (- -e).toNat := Nat.mul_pos hd (Nat.pow_pos (by decide))
  have hp := two_zpow_pos e
  refine roundHalfEven_of_near hpos ?_ ?_ fun hm => ⟨?_, ?_⟩ <;>
    rw [cast_scaled, zpow_neg, ← div_eq_mul_inv]
  · rwa [le_div_iff₀ hp]
  · rwa [div_le_iff₀ hp]
  · rw [lt_div_iff₀ hp]
    exact (hodd hm).1
  · rw [div_lt_iff₀ hp]
    exact (hodd hm).2

section

variable {v : ℚ}

theorem RoundsTo.bounds (h : x.RoundsTo v) :
    ((x.mantissa : ℚ) - 1 / 2) * 2 ^ x.exponent ≤ v ∧ v ≤ (x.mantissa + 1 / 2) * 2 ^ x.exponent ∧
      (x.mantissa % 2 = 1 → ((x.mantissa : ℚ) - 1 / 2) * 2 ^ x.exponent < v ∧
        v < (x.mantissa + 1 / 2) * 2 ^ x.exponent) := by
  obtain ⟨hlow, hhigh, hstrict⟩ := h
  have hp := two_zpow_pos x.exponent
  have hquarter : (2 : ℚ) ^ (x.exponent - 2) = 2 ^ x.exponent / 4 := by
    rw [zpow_sub₀ (by norm_num)]
    norm_num
  have hleast : (4 * (x.mantissa : ℚ) - 2) ≤ (x.roundingInterval.low : ℚ) := by
    have hnat : 4 * x.mantissa ≤ x.roundingInterval.low + 2 := by
      simp only [roundingInterval]
      split <;> omega
    have hcast : (4 * x.mantissa : ℚ) ≤ x.roundingInterval.low + 2 := by exact_mod_cast hnat
    linarith
  have hmost : (x.roundingInterval.high : ℚ) = 4 * x.mantissa + 2 := by simp [roundingInterval]
  have hexp : x.roundingInterval.exponent = x.exponent - 2 := rfl
  rw [hexp, hquarter] at hlow hhigh hstrict
  rw [hmost] at hhigh hstrict
  have hscaled := mul_le_mul_of_nonneg_right hleast (by positivity : (0 : ℚ) ≤ 2 ^ x.exponent / 4)
  refine ⟨by linarith, by linarith, fun hodd => ?_⟩
  have hopen : x.roundingInterval.closed = false := by simp [roundingInterval, hodd]
  obtain ⟨hl, hh⟩ := hstrict hopen
  exact ⟨by linarith, by linarith⟩

theorem RoundsTo.pos (hm : x.mantissa ≠ 0) (h : x.RoundsTo v) : 0 < v := by
  have hone : (1 : ℚ) ≤ x.mantissa := by exact_mod_cast Nat.one_le_iff_ne_zero.mpr hm
  exact lt_of_lt_of_le (mul_pos (by linarith) (two_zpow_pos _)) h.bounds.1

/-- A size in the interval has no more bits than the mantissa may have. -/
theorem RoundsTo.lt_two_zpow (hx : x.isFinite = true) (h : x.RoundsTo v) : v < 2 ^ (53 + x.exponent) := by
  have hp := two_zpow_pos x.exponent
  have hmantissa : (x.mantissa : ℚ) + 1 ≤ 2 ^ 53 := by
    have hless : x.mantissa < 2 ^ 53 := by
      rcases finite_cases hx with ⟨hm, -⟩ | ⟨-, hm, -⟩ <;> omega
    exact_mod_cast hless
  calc v ≤ (x.mantissa + 1 / 2) * 2 ^ x.exponent := h.bounds.2.1
    _ < 2 ^ 53 * 2 ^ x.exponent := by
      gcongr
      linarith
    _ = 2 ^ (53 + x.exponent) := two_pow_mul_zpow 53 _

/-- Only to the least mantissa with all its bits a size with fewer bits is rounded. -/
theorem RoundsTo.mantissa_eq (hm : 2 ^ 52 ≤ x.mantissa) (h : x.RoundsTo v) (hless : v < 2 ^ (52 + x.exponent)) :
    x.mantissa = 2 ^ 52 := by
  by_contra hne
  have hmore : (2 : ℚ) ^ 52 + 1 ≤ x.mantissa := by exact_mod_cast (by omega : 2 ^ 52 + 1 ≤ x.mantissa)
  refine not_le.mpr hless ?_
  calc (2 : ℚ) ^ (52 + x.exponent) = 2 ^ 52 * 2 ^ x.exponent := (two_pow_mul_zpow 52 _).symm
    _ ≤ (x.mantissa - 1 / 2) * 2 ^ x.exponent := by
      gcongr
      linarith
    _ ≤ v := h.bounds.1

/-- Below the least mantissa with all its bits the numbers lie closer. -/
theorem RoundsTo.low_of_least (h : x.RoundsTo v) (hm : x.mantissa = 2 ^ 52) (hf : 1 < x.exponentField) :
    ((2 : ℚ) ^ 52 - 1 / 4) * 2 ^ x.exponent ≤ v := by
  have hquarter : (2 : ℚ) ^ (x.exponent - 2) = 2 ^ x.exponent / 4 := by
    rw [zpow_sub₀ (by norm_num)]
    norm_num
  have hlow : (x.roundingInterval.low : ℚ) * 2 ^ (x.exponent - 2) ≤ v := h.1
  have hleast : x.roundingInterval.low = 4 * 2 ^ 52 - 1 := by simp [roundingInterval, hm, hf]
  rw [hleast, hquarter] at hlow
  push_cast at hlow
  linarith

end

theorem ofRatio_eq {num den : ℕ} (hn : num ≠ 0) (negative : Bool) {e : ℤ} (he : ratioExponent num den = e) {m : ℕ}
    (hm : roundHalfEven (scaledQuotient num den (-e)).1 (scaledQuotient num den (-e)).2.1
      (scaledQuotient num den (-e)).2.2 = m) :
    ofRatio negative num den =
      if m < 2 ^ 52 then ofFields negative 0 m
      else
        let p := if m = 2 ^ 53 then (2 ^ 52, e + 1) else (m, e)
        if p.2 + 1075 ≥ 2047 then infinity negative
        else ofFields negative (p.2 + 1075).toNat (p.1 - 2 ^ 52) := by
  subst he hm
  rw [ofRatio, if_neg hn]
  rfl

theorem ratioExponent_eq_log {num den : ℕ} (hn : 0 < num) (hd : 0 < den) :
    ratioExponent num den = max (Int.log 2 ((num : ℚ) / den) - 52) (-1074) := by
  have hv : (0 : ℚ) < num / den := div_pos (Nat.cast_pos.mpr hn) (Nat.cast_pos.mpr hd)
  have hlow := Int.zpow_log_le_self (b := 2) (by decide) hv
  have hhigh := Int.lt_zpow_succ_log_self (b := 2) (by decide) ((num : ℚ) / den)
  push_cast at hlow hhigh
  refine ratioExponent_eq hn hd ?_ ?_
  · rwa [add_sub_cancel]
  · have hexp : 53 + (Int.log 2 ((num : ℚ) / den) - 52) = Int.log 2 ((num : ℚ) / den) + 1 := by ring
    rwa [hexp]

theorem ratioExponent_of_range {num den : ℕ} (hn : 0 < num) (hd : 0 < den) {k : ℤ} (hk : -1074 ≤ k)
    (hlow : (2 : ℚ) ^ (52 + k) ≤ num / den ∨ k = -1074) (hhigh : (num : ℚ) / den < 2 ^ (53 + k)) :
    ratioExponent num den = k := by
  have hv : (0 : ℚ) < num / den := div_pos (Nat.cast_pos.mpr hn) (Nat.cast_pos.mpr hd)
  have htop : Int.log 2 ((num : ℚ) / den) < 53 + k := by
    refine (Int.lt_zpow_iff_log_lt (b := 2) (by decide) hv).mp ?_
    exact_mod_cast hhigh
  rw [ratioExponent_eq_log hn hd]
  rcases hlow with hlow | rfl
  · have hbottom : 52 + k ≤ Int.log 2 ((num : ℚ) / den) := by
      refine (Int.zpow_le_iff_le_log (b := 2) (by decide) hv).mp ?_
      exact_mod_cast hlow
    omega
  · omega

section

variable {num den : ℕ}

/-- A quotient with the exponent of the number is rounded to its mantissa. -/
theorem ofRatio_of_ratioExponent (hx : x.isFinite = true) (hn : 0 < num) (hd : 0 < den) (h : x.RoundsTo (num / den))
    (he : ratioExponent num den = x.exponent) : ofRatio x.isNegative num den = x := by
  obtain ⟨hlow, hhigh, hodd⟩ := h.bounds
  rw [ofRatio_eq hn.ne' x.isNegative he (roundHalfEven_scaled hd hlow hhigh hodd)]
  rcases finite_cases hx with ⟨hsmall, -, hself⟩ | ⟨hlarge, hless, -, hmost, -, hself⟩
  · rw [if_pos hsmall]
    exact hself
  · have hne : ¬ x.mantissa = 2 ^ 53 := by omega
    have hfinite : ¬ x.exponent + 1075 ≥ 2047 := by omega
    rw [if_neg (by omega)]
    simp only [if_neg hne, if_neg hfinite]
    exact hself

/-- A quotient below the least mantissa with all its bits has one bit more, all of them set, and rounds up to the
number. -/
theorem ofRatio_of_lt (hx : x.isFinite = true) (hn : 0 < num) (hd : 0 < den) (h : x.RoundsTo (num / den))
    (hless : (num : ℚ) / den < 2 ^ (52 + x.exponent)) (hexp : x.exponent ≠ -1074) :
    ofRatio x.isNegative num den = x := by
  rcases finite_cases hx with ⟨-, he, -⟩ | ⟨hlarge, -, hleast, hmost, hfield, hself⟩
  · exact absurd he hexp
  have hmantissa := h.mantissa_eq hlarge hless
  have hnarrow := h.low_of_least hmantissa (by omega)
  have hhalf : (2 : ℚ) ^ x.exponent = 2 * 2 ^ (x.exponent - 1) := by
    rw [zpow_sub_one₀ (by norm_num)]
    ring
  have hratio : ratioExponent num den = x.exponent - 1 := by
    have hnear : (2 : ℚ) ^ (52 + (x.exponent - 1)) ≤ num / den := by
      calc (2 : ℚ) ^ (52 + (x.exponent - 1)) = 2 ^ (51 + x.exponent) := by ring_nf
        _ = 2 ^ 51 * 2 ^ x.exponent := (two_pow_mul_zpow 51 _).symm
        _ ≤ (2 ^ 52 - 1 / 4) * 2 ^ x.exponent := by
          gcongr
          norm_num
        _ ≤ num / den := hnarrow
    have htop : (53 : ℤ) + (x.exponent - 1) = 52 + x.exponent := by ring
    exact ratioExponent_of_range hn hd (by omega) (.inl hnear) (htop ▸ hless)
  have hup : roundHalfEven (scaledQuotient num den (-(x.exponent - 1))).1
      (scaledQuotient num den (-(x.exponent - 1))).2.1 (scaledQuotient num den (-(x.exponent - 1))).2.2 =
      2 ^ 53 := by
    have hp := two_zpow_pos (x.exponent - 1)
    have hle := hless.le.trans_eq (two_pow_mul_zpow 52 x.exponent).symm
    rw [hhalf] at hnarrow hle
    refine roundHalfEven_scaled hd ?_ ?_ fun h => absurd h (by norm_num) <;>
      push_cast <;> nlinarith
  have hfinite : ¬ x.exponent + 1075 ≥ 2047 := by omega
  rw [ofRatio_eq hn.ne' x.isNegative hratio hup, if_neg (by norm_num)]
  simp only [if_true, sub_add_cancel, if_neg hfinite]
  rw [hmantissa] at hself
  exact hself

/-- A quotient in the interval of a number is rounded to the number. -/
theorem ofRatio_of_roundsTo (hx : x.isFinite = true) (hm : x.mantissa ≠ 0) (hd : 0 < den)
    (h : x.RoundsTo (num / den)) : ofRatio x.isNegative num den = x := by
  have hn : 0 < num := by
    rcases Nat.eq_zero_or_pos num with rfl | hpos
    · simpa using h.pos hm
    · exact hpos
  by_cases hlow : (2 : ℚ) ^ (52 + x.exponent) ≤ num / den ∨ x.exponent = -1074
  · have hleast : -1074 ≤ x.exponent := by
      rcases finite_cases hx with ⟨-, he, -⟩ | ⟨-, -, he, -⟩ <;> omega
    exact ofRatio_of_ratioExponent hx hn hd h (ratioExponent_of_range hn hd hleast hlow (h.lt_two_zpow hx))
  · obtain ⟨hless, hexp⟩ := not_or.mp hlow
    exact ofRatio_of_lt hx hn hd h (not_le.mp hless) hexp

end

/-- Every size in the interval of a finite number is below the first power of two that is out of range. -/
theorem RoundsTo.lt_max {v : ℚ} (hx : x.isFinite = true) (h : x.RoundsTo v) : v < 2 ^ (1024 : ℤ) := by
  have hexp : x.exponent ≤ 971 := by
    rcases finite_cases hx with ⟨-, he, -⟩ | ⟨-, -, -, he, -⟩ <;> omega
  calc v < 2 ^ (53 + x.exponent) := h.lt_two_zpow hx
    _ ≤ 2 ^ (1024 : ℤ) := zpow_le_zpow_right₀ (by norm_num) (by omega)

theorem RoundsTo.min_le {v : ℚ} (hx : x.isFinite = true) (hm : x.mantissa ≠ 0) (h : x.RoundsTo v) :
    (2 : ℚ) ^ (-1075 : ℤ) ≤ v := by
  obtain ⟨hlow, -, -⟩ := h.bounds
  have hone : (1 : ℚ) ≤ x.mantissa := by exact_mod_cast Nat.one_le_iff_ne_zero.mpr hm
  have hexp : -1074 ≤ x.exponent := by
    rcases finite_cases hx with ⟨-, he, -⟩ | ⟨-, -, he, -⟩ <;> omega
  calc (2 : ℚ) ^ (-1075 : ℤ) = 2 ^ (-1 : ℤ) * 2 ^ (-1074 : ℤ) := by
        rw [← zpow_add₀ (by norm_num)]
        norm_num
    _ = 1 / 2 * 2 ^ (-1074 : ℤ) := by rw [zpow_neg_one, one_div]
    _ ≤ (x.mantissa - 1 / 2) * 2 ^ x.exponent :=
      mul_le_mul (by linarith) (zpow_le_zpow_right₀ (by norm_num) hexp) (two_zpow_pos _).le (by linarith)
    _ ≤ v := hlow

theorem ten_zpow_pos (k : ℤ) : (0 : ℚ) < 10 ^ k := zpow_pos (by norm_num) k

theorem two_zpow_le_ten_zpow : (2 : ℚ) ^ (1024 : ℤ) ≤ 10 ^ (310 : ℤ) := by
  have hnat : 2 ^ 1024 ≤ 10 ^ 310 := by
    calc 2 ^ 1024 = (2 ^ 93) ^ 11 * 2 := by rw [← pow_mul, ← pow_succ]
      _ ≤ (10 ^ 28) ^ 11 * 10 ^ 2 := Nat.mul_le_mul (Nat.pow_le_pow_left (by norm_num) 11) (by norm_num)
      _ = 10 ^ 310 := by rw [← pow_mul, ← pow_add]
  exact_mod_cast hnat

theorem ten_zpow_le_two_zpow : (10 : ℚ) ^ (-330 : ℤ) ≤ 2 ^ (-1075 : ℤ) := by
  have hnat : 2 ^ 1075 ≤ 10 ^ 330 := by
    calc 2 ^ 1075 = (2 ^ 93) ^ 11 * 2 ^ 52 := by rw [← pow_mul, ← pow_add]
      _ ≤ (10 ^ 28) ^ 11 * 10 ^ 22 := Nat.mul_le_mul (Nat.pow_le_pow_left (by norm_num) 11) (by norm_num)
      _ = 10 ^ 330 := by rw [← pow_mul, ← pow_add]
  rw [zpow_neg, zpow_neg]
  gcongr
  exact_mod_cast hnat

section

variable {digits : ℕ} {exponent : ℤ}

/-- A decimal whose digits and exponent alone are too large is out of range. -/
theorem two_zpow_le_decimal (hdigits : 0 < digits) (h : Int.ofNat digits.log2 / 4 + exponent > 310) :
    (2 : ℚ) ^ (1024 : ℤ) ≤ digits * 10 ^ exponent := by
  have hp := ten_zpow_pos exponent
  have hlog : (10 : ℚ) ^ (Int.ofNat digits.log2 / 4) ≤ digits := by
    calc (10 : ℚ) ^ (Int.ofNat digits.log2 / 4) ≤ (2 ^ (4 : ℤ)) ^ (Int.ofNat digits.log2 / 4) := by
          refine zpow_le_zpow_left₀ ?_ (by norm_num) (by norm_num)
          rw [Int.ofNat_eq_natCast]
          omega
      _ = 2 ^ (4 * (Int.ofNat digits.log2 / 4)) := (zpow_mul _ _ _).symm
      _ ≤ 2 ^ (digits.log2 : ℤ) := zpow_le_zpow_right₀ (by norm_num) (by rw [Int.ofNat_eq_natCast]; omega)
      _ ≤ digits := zpow_log2_le hdigits
  calc (2 : ℚ) ^ (1024 : ℤ) ≤ 10 ^ (310 : ℤ) := two_zpow_le_ten_zpow
    _ ≤ 10 ^ (Int.ofNat digits.log2 / 4 + exponent) := zpow_le_zpow_right₀ (by norm_num) h.le
    _ = 10 ^ (Int.ofNat digits.log2 / 4) * 10 ^ exponent := zpow_add₀ (by norm_num) _ _
    _ ≤ digits * 10 ^ exponent := by gcongr

/-- A decimal whose digits and exponent alone are too small is nearer to zero than to any other number. -/
theorem decimal_lt_two_zpow (h : Int.ofNat digits.log2 / 3 + exponent < -330) :
    digits * (10 : ℚ) ^ exponent < 2 ^ (-1075 : ℤ) := by
  have hp := ten_zpow_pos exponent
  have hlog : (digits : ℚ) < 10 ^ (Int.ofNat digits.log2 / 3 + 1) := by
    calc (digits : ℚ) < 2 ^ ((digits.log2 : ℤ) + 1) := lt_zpow_log2 digits
      _ ≤ 2 ^ (3 * (Int.ofNat digits.log2 / 3 + 1)) :=
        zpow_le_zpow_right₀ (by norm_num) (by rw [Int.ofNat_eq_natCast]; omega)
      _ = (2 ^ (3 : ℤ)) ^ (Int.ofNat digits.log2 / 3 + 1) := zpow_mul _ _ _
      _ ≤ 10 ^ (Int.ofNat digits.log2 / 3 + 1) := by
        refine zpow_le_zpow_left₀ ?_ (by positivity) (by norm_num)
        rw [Int.ofNat_eq_natCast]
        omega
  calc digits * (10 : ℚ) ^ exponent < 10 ^ (Int.ofNat digits.log2 / 3 + 1) * 10 ^ exponent := by gcongr
    _ = 10 ^ (Int.ofNat digits.log2 / 3 + 1 + exponent) := (zpow_add₀ (by norm_num) _ _).symm
    _ ≤ 10 ^ (-330 : ℤ) := zpow_le_zpow_right₀ (by norm_num) (by omega)
    _ ≤ 2 ^ (-1075 : ℤ) := ten_zpow_le_two_zpow

/-- The size of the point `d` on a grid. -/
theorem cast_onGrid (d : ℕ) (k : ℤ) :
    ((d * Nat.pow 10 k.toNat : ℕ) : ℚ) / (Nat.pow 10 (-k).toNat : ℕ) = d * 10 ^ k := by
  have := cast_pow_div_pow 10 (by decide) k
  rw [Nat.cast_mul, mul_div_assoc, this]
  norm_num

/-- A decimal in the interval of a number is read as the number: it is far from where the size alone would tell. -/
theorem ofDecimal_of_roundsTo (hx : x.isFinite = true) (hm : x.mantissa ≠ 0)
    (h : x.RoundsTo (digits * 10 ^ exponent)) : ofDecimal x.isNegative digits exponent = x := by
  have hdigits : 0 < digits := by
    rcases Nat.eq_zero_or_pos digits with rfl | hpos
    · simpa using h.pos hm
    · exact hpos
  have hcut : ¬ (Int.ofNat digits.log2 / 4 + exponent > 310) := fun hbig =>
    not_le.mpr (h.lt_max hx) (two_zpow_le_decimal hdigits hbig)
  have hsmall : ¬ (Int.ofNat digits.log2 / 3 + exponent < -330) := fun hlittle =>
    not_lt.mpr (h.min_le hx hm) (decimal_lt_two_zpow hlittle)
  unfold ofDecimal
  simp only [if_neg hdigits.ne', if_neg hcut, if_neg hsmall]
  refine ofRatio_of_roundsTo hx hm (Nat.pow_pos (by decide)) ?_
  rw [cast_onGrid]
  exact h

end

end TopologyConfig.Binary64
