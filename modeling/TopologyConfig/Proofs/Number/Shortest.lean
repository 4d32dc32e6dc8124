import Mathlib.Algebra.Order.Floor.Semifield
import TopologyConfig.Proofs.Number.Numeral
import TopologyConfig.Proofs.Number.Rounding

/-!
The decimal text of a finite number. Seventeen digits always suffice for a decimal in the number's interval, so there
is a shortest one; every decimal of its size is read back as the number.
-/
namespace TopologyConfig.Binary64

open Numeral (AreDigits)

variable {x : Binary64}

section

variable {num den : ℕ}

theorem ten_pow_le_iff (hd : 0 < den) (p : ℤ) :
    den * Nat.pow 10 p.toNat ≤ num * Nat.pow 10 (-p).toNat ↔ (10 : ℚ) ^ p ≤ num / den := by
  have hpos : (0 : ℚ) < (Nat.pow 10 (-p).toNat : ℕ) := Nat.cast_pos.mpr (Nat.pow_pos (by decide))
  have hten : (10 : ℚ) ^ p = (Nat.pow 10 p.toNat : ℕ) / (Nat.pow 10 (-p).toNat : ℕ) := by
    have := cast_pow_div_pow 10 (by decide) p
    rw [this]
    norm_num
  rw [hten, div_le_div_iff₀ hpos (Nat.cast_pos.mpr hd)]
  have hcomm : ((Nat.pow 10 p.toNat : ℕ) : ℚ) * den = ((den * Nat.pow 10 p.toNat : ℕ) : ℚ) := by
    rw [Nat.cast_mul, mul_comm]
  rw [hcomm, ← Nat.cast_mul, Nat.cast_le]

/-- The guess of the decimal logarithm from the binary one `l` is close enough. -/
def guessFits (l : ℤ) : Bool :=
  let g := l * 30103 / 100000
  Nat.pow 2 (l + 1).toNat * Nat.pow 10 (-(g + 2)).toNat ≤ Nat.pow 10 (g + 2).toNat * Nat.pow 2 (-(l + 1)).toNat &&
    Nat.pow 10 (g - 2).toNat * Nat.pow 2 (-(l - 1)).toNat ≤ Nat.pow 2 (l - 1).toNat * Nat.pow 10 (-(g - 2)).toNat

/-- The guess is close enough for all binary logarithms of numbers. -/
theorem guessFits_of_lt : ∀ i : ℕ, i < 2101 → guessFits (i - 1076) = true := by decide +kernel

theorem zpow_le_zpow_of_nat {a b : ℕ} (ha : 0 < a) (hb : 0 < b) {k l : ℤ}
    (h : Nat.pow a k.toNat * Nat.pow b (-l).toNat ≤ Nat.pow b l.toNat * Nat.pow a (-k).toNat) :
    (a : ℚ) ^ k ≤ (b : ℚ) ^ l := by
  have hak : (0 : ℚ) < (Nat.pow a (-k).toNat : ℕ) := Nat.cast_pos.mpr (Nat.pow_pos ha)
  have hbl : (0 : ℚ) < (Nat.pow b (-l).toNat : ℕ) := Nat.cast_pos.mpr (Nat.pow_pos hb)
  rw [← cast_pow_div_pow a ha, ← cast_pow_div_pow b hb, div_le_div_iff₀ hak hbl]
  exact_mod_cast h

/-- The place of the point is where the decimal begins. -/
theorem decimalPoint_spec (hn : 0 < num) (hd : 0 < den) (hmin : (2 : ℚ) ^ (-1075 : ℤ) ≤ num / den)
    (hmax : (num : ℚ) / den < 2 ^ (1024 : ℤ)) :
    (10 : ℚ) ^ (decimalPoint num den - 1) ≤ num / den ∧ (num : ℚ) / den < 10 ^ decimalPoint num den := by
  obtain ⟨hlower, hupper⟩ := log2_sub_log2 hn hd
  have htwo : (1 : ℚ) < 2 := by norm_num
  have h1 : (num.log2 : ℤ) - den.log2 - 1 < 1024 := (zpow_lt_zpow_iff_right₀ htwo).mp (hlower.trans hmax)
  have h2 : -1075 < (num.log2 : ℤ) - den.log2 + 1 := (zpow_lt_zpow_iff_right₀ htwo).mp (hmin.trans_lt hupper)
  obtain ⟨i, hi⟩ := Int.eq_ofNat_of_zero_le (by omega : 0 ≤ (num.log2 : ℤ) - den.log2 + 1076)
  have hl : (i : ℤ) - 1076 = (num.log2 : ℤ) - den.log2 := by omega
  obtain ⟨hg1, hg2⟩ := (Bool.and_eq_true _ _).mp (guessFits_of_lt i (by omega))
  rw [decide_eq_true_eq] at hg1 hg2
  have hg1 := zpow_le_zpow_of_nat (by decide) (by decide) hg1
  have hg2 := zpow_le_zpow_of_nat (by decide) (by decide) hg2
  rw [hl] at hg1 hg2
  have hhigh := hupper.trans_le hg1
  have hlow := hg2.trans hlower.le
  unfold decimalPoint
  simp only [Int.ofNat_eq_natCast, decide_eq_true_eq, ten_pow_le_iff hd]
  push_cast at hhigh hlow
  generalize ((num.log2 : ℤ) - den.log2) * 30103 / 100000 = g at hhigh hlow ⊢
  split
  · next h =>
    have hexp : g + 2 - 1 = g + 1 := by ring
    exact ⟨hexp ▸ h, hhigh⟩
  · next h =>
    split
    · next h' =>
      rw [add_sub_cancel_right]
      exact ⟨h', not_le.mp h⟩
    · next h' =>
      split
      · next h'' => exact ⟨h'', not_le.mp h'⟩
      · next h'' =>
        have hexp : g - 1 - 1 = g - 2 := by ring
        exact ⟨hexp ▸ hlow, not_le.mp h''⟩

end

theorem contains_iff (x : Binary64) {num den : ℕ} (hd : 0 < den) :
    x.roundingInterval.contains num den = true ↔ x.RoundsTo (num / den) := by
  have hp := two_zpow_pos x.roundingInterval.exponent
  have hpos : (0 : ℚ) < (den * Nat.pow 2 x.roundingInterval.exponent.toNat : ℕ) :=
    Nat.cast_pos.mpr (Nat.mul_pos hd (Nat.pow_pos (by decide)))
  have hscaled : ((num * Nat.pow 2 (-x.roundingInterval.exponent).toNat : ℕ) : ℚ) /
      (den * Nat.pow 2 x.roundingInterval.exponent.toNat : ℕ) = num / den / 2 ^ x.roundingInterval.exponent := by
    have := cast_scaled num den (-x.roundingInterval.exponent)
    rw [neg_neg] at this
    rw [this, zpow_neg, ← div_eq_mul_inv]
  have hle (a : ℕ) : a * (den * Nat.pow 2 x.roundingInterval.exponent.toNat) ≤
      num * Nat.pow 2 (-x.roundingInterval.exponent).toNat ↔
      (a : ℚ) * 2 ^ x.roundingInterval.exponent ≤ num / den := by
    rw [← le_div_iff₀ hp, ← hscaled, le_div_iff₀ hpos, ← Nat.cast_mul, Nat.cast_le]
  have hge (a : ℕ) : num * Nat.pow 2 (-x.roundingInterval.exponent).toNat ≤
      a * (den * Nat.pow 2 x.roundingInterval.exponent.toNat) ↔
      (num : ℚ) / den ≤ a * 2 ^ x.roundingInterval.exponent := by
    rw [← div_le_iff₀ hp, ← hscaled, div_le_iff₀ hpos, ← Nat.cast_mul, Nat.cast_le]
  unfold RoundingInterval.contains RoundsTo
  cases hc : x.roundingInterval.closed with
  | true =>
    simp only [if_true, Bool.and_eq_true, decide_eq_true_eq, hle, hge]
    exact ⟨fun h => ⟨h.1, h.2, fun hf => nomatch hc.symm.trans hf⟩, fun h => ⟨h.1, h.2.1⟩⟩
  | false =>
    simp only [Bool.false_eq_true, if_false, Bool.and_eq_true, decide_eq_true_eq, ← not_le, hle, hge]
    constructor
    · rintro ⟨hl, hh⟩
      exact ⟨(not_le.mp hl).le, (not_le.mp hh).le, fun _ => ⟨hl, hh⟩⟩
    · exact fun h => h.2.2 hc

theorem contains_onGrid_iff (x : Binary64) (d : ℕ) (k : ℤ) :
    x.roundingInterval.contains (d * Nat.pow 10 k.toNat) (Nat.pow 10 (-k).toNat) = true ↔
      x.RoundsTo (d * 10 ^ k) := by
  have hdown : 0 < Nat.pow 10 (-k).toNat := Nat.pow_pos (by decide)
  rw [contains_iff x hdown, cast_onGrid]

section

variable {num den n : ℕ} {point : ℤ}

theorem nearestOnGrid?_spec {d : ℕ} (h : nearestOnGrid? x.roundingInterval num den point n = some d) :
    0 < d ∧ x.RoundsTo (d * 10 ^ (point - n)) := by
  unfold nearestOnGrid? at h
  simp only [Int.ofNat_eq_natCast] at h
  generalize num * Nat.pow 10 (-(point - n)).toNat / (den * Nat.pow 10 (point - n).toNat) = q at h
  split at h
  · next hboth =>
    simp only [Bool.and_eq_true, decide_eq_true_eq, contains_onGrid_iff] at hboth
    split at h <;> cases h
    · exact ⟨Nat.succ_pos q, hboth.2⟩
    · exact hboth.1
  · split at h
    · next hbelow =>
      simp only [Bool.and_eq_true, decide_eq_true_eq, contains_onGrid_iff] at hbelow
      cases h
      exact hbelow
    · split at h
      · next habove =>
        cases h
        exact ⟨Nat.succ_pos q, (contains_onGrid_iff x _ _).mp habove⟩
      · cases h

/-- The quotient lies between two neighbours on every grid. -/
theorem between_onGrid (num : ℕ) (hd : 0 < den) (k : ℤ) :
    ((num * Nat.pow 10 (-k).toNat / (den * Nat.pow 10 k.toNat) : ℕ) : ℚ) * 10 ^ k ≤ num / den ∧
      (num : ℚ) / den < ((num * Nat.pow 10 (-k).toNat / (den * Nat.pow 10 k.toNat) + 1 : ℕ) : ℚ) * 10 ^ k := by
  have hp := ten_zpow_pos k
  have hscaled : ((num * Nat.pow 10 (-k).toNat : ℕ) : ℚ) / (den * Nat.pow 10 k.toNat : ℕ) = num / den / 10 ^ k := by
    have := cast_pow_div_pow 10 (by decide) (-k)
    rw [neg_neg] at this
    rw [Nat.cast_mul, Nat.cast_mul, mul_div_mul_comm, this, zpow_neg, ← div_eq_mul_inv]
    norm_num
  have hq : num * Nat.pow 10 (-k).toNat / (den * Nat.pow 10 k.toNat) = ⌊(num : ℚ) / den / 10 ^ k⌋₊ := by
    rw [← hscaled, Nat.floor_div_eq_div]
  constructor
  · rw [hq, ← le_div_iff₀ hp]
    exact Nat.floor_le (by positivity)
  · rw [hq, ← div_lt_iff₀ hp]
    push_cast
    exact Nat.lt_floor_add_one _

/-- If neither of two neighbours were in the interval, the whole interval would lie between them. -/
theorem roundsTo_neighbour {v : ℚ} {q : ℕ} {k : ℤ}
    (hl : x.roundingInterval.low * (2 : ℚ) ^ x.roundingInterval.exponent < v)
    (hh : v < x.roundingInterval.high * 2 ^ x.roundingInterval.exponent)
    (hfine : (10 : ℚ) ^ k < (x.roundingInterval.high - x.roundingInterval.low) * 2 ^ x.roundingInterval.exponent)
    (hfloor : (q : ℚ) * 10 ^ k ≤ v) (hceil : v < ((q + 1 : ℕ) : ℚ) * 10 ^ k) :
    q > 0 ∧ x.RoundsTo (q * 10 ^ k) ∨ x.RoundsTo ((q + 1 : ℕ) * 10 ^ k) := by
  by_contra hnone
  obtain ⟨hbelow, habove⟩ := not_or.mp hnone
  have h1 : (q : ℚ) * 10 ^ k ≤ x.roundingInterval.low * 2 ^ x.roundingInterval.exponent := by
    by_contra hgt
    have hin : x.RoundsTo (q * 10 ^ k) :=
      ⟨(not_le.mp hgt).le, hfloor.trans hh.le, fun _ => ⟨not_le.mp hgt, hfloor.trans_lt hh⟩⟩
    have hzero : q = 0 := by
      by_contra hne
      exact hbelow ⟨Nat.pos_of_ne_zero hne, hin⟩
    rw [hzero, Nat.cast_zero, zero_mul] at hgt
    exact hgt (mul_nonneg (Nat.cast_nonneg _) (two_zpow_pos _).le)
  have h2 : x.roundingInterval.high * (2 : ℚ) ^ x.roundingInterval.exponent ≤ (q + 1 : ℕ) * 10 ^ k := by
    by_contra hlt
    exact habove ⟨hl.le.trans hceil.le, (not_le.mp hlt).le, fun _ => ⟨hl.trans hceil, not_le.mp hlt⟩⟩
  push_cast at h2
  linarith

/-- A grid that is finer than the interval has a point in it, next to any of the interval's inner points. -/
theorem exists_nearestOnGrid? (hd : 0 < den)
    (hl : x.roundingInterval.low * (2 : ℚ) ^ x.roundingInterval.exponent < num / den)
    (hh : (num : ℚ) / den < x.roundingInterval.high * 2 ^ x.roundingInterval.exponent)
    (hfine : (10 : ℚ) ^ (point - n) <
      (x.roundingInterval.high - x.roundingInterval.low) * 2 ^ x.roundingInterval.exponent) :
    ∃ d, nearestOnGrid? x.roundingInterval num den point n = some d := by
  obtain ⟨hfloor, hceil⟩ := between_onGrid num hd (point - n)
  have hinside := roundsTo_neighbour hl hh hfine hfloor hceil
  unfold nearestOnGrid?
  simp only [← contains_onGrid_iff] at hinside
  simp only [Int.ofNat_eq_natCast]
  generalize num * Nat.pow 10 (-(point - n)).toNat / (den * Nat.pow 10 (point - n).toNat) = q at hinside ⊢
  split
  · split <;> exact ⟨_, rfl⟩
  · split
    · exact ⟨_, rfl⟩
    · next hbelow =>
      split
      · exact ⟨_, rfl⟩
      · next habove =>
        rcases hinside with hin | hin
        · exact absurd (by simpa using hin) hbelow
        · exact absurd hin habove

end

/-- The size of a finite number is that of its quotient. -/
theorem quotient_eq (x : Binary64) :
    0 < x.quotient.2 ∧ (x.quotient.1.natAbs : ℚ) / x.quotient.2 = x.mantissa * 2 ^ x.exponent := by
  have hup : x.exponent - min x.exponent 0 = max x.exponent 0 := by omega
  have hnum : x.quotient.1.natAbs = x.mantissa * Nat.pow 2 x.exponent.toNat := by
    have htoNat : (x.exponent - min x.exponent 0).toNat = x.exponent.toNat := by omega
    simp only [quotient, scaledTo, htoNat, Int.ofNat_eq_natCast]
    split
    · rw [Int.natAbs_neg, Int.natAbs_natCast]
    · rw [Int.natAbs_natCast]
  have hden : x.quotient.2 = Nat.pow 2 (-x.exponent).toNat := by
    have htoNat : (-min x.exponent 0).toNat = (-x.exponent).toNat := by omega
    rw [quotient, htoNat]
  rw [hnum, hden]
  have hpow := cast_pow_div_pow 2 (by decide) x.exponent
  refine ⟨Nat.pow_pos (by decide), ?_⟩
  rw [Nat.cast_mul, mul_div_assoc, hpow]
  norm_num

section

variable (hx : x.isFinite = true)

/-- A number lies inside its own interval. -/
theorem low_lt_and_lt_high (hm : x.mantissa ≠ 0) :
    x.roundingInterval.low * (2 : ℚ) ^ x.roundingInterval.exponent < x.mantissa * 2 ^ x.exponent ∧
      (x.mantissa : ℚ) * 2 ^ x.exponent < x.roundingInterval.high * 2 ^ x.roundingInterval.exponent := by
  have hquarter : (2 : ℚ) ^ x.exponent = 4 * 2 ^ (x.exponent - 2) := by
    rw [zpow_sub₀ (by norm_num)]
    norm_num
    ring
  have hexp : x.roundingInterval.exponent = x.exponent - 2 := rfl
  have hp := two_zpow_pos (x.exponent - 2)
  have hlow : (x.roundingInterval.low : ℚ) < x.mantissa * 4 := by
    have hnat : x.roundingInterval.low < x.mantissa * 4 := by
      simp only [roundingInterval]
      split <;> omega
    exact_mod_cast hnat
  have hhigh : (x.mantissa : ℚ) * 4 < x.roundingInterval.high := by
    have hnat : x.mantissa * 4 < x.roundingInterval.high := by
      simp only [roundingInterval]
      omega
    exact_mod_cast hnat
  rw [hexp, hquarter, ← mul_assoc]
  exact ⟨mul_lt_mul_of_pos_right hlow hp, mul_lt_mul_of_pos_right hhigh hp⟩

include hx

/-- Sixteen decimal places behind the first are finer than the interval of any number. -/
theorem ten_pow_lt_width {point : ℤ} (h : (10 : ℚ) ^ (point - 1) ≤ x.mantissa * 2 ^ x.exponent) :
    (10 : ℚ) ^ (point - 17) <
      (x.roundingInterval.high - x.roundingInterval.low) * 2 ^ x.roundingInterval.exponent := by
  have hsplit : (10 : ℚ) ^ (point - 1) = 10 ^ 16 * 10 ^ (point - 17) := by
    rw [← zpow_natCast, ← zpow_add₀ (by norm_num)]
    congr 1
    push_cast
    ring
  have hquarter : (2 : ℚ) ^ x.exponent = 4 * 2 ^ (x.exponent - 2) := by
    rw [zpow_sub₀ (by norm_num)]
    norm_num
    ring
  have hexp : x.roundingInterval.exponent = x.exponent - 2 := rfl
  have hp := two_zpow_pos (x.exponent - 2)
  have hlt : x.mantissa < 2 ^ 53 := by
    rcases finite_cases hx with ⟨hless, -⟩ | ⟨-, hless, -⟩ <;> omega
  -- Four quarters, or three if the mantissa is the least one: the interval is wide for the size of the mantissa.
  have hwide : (x.mantissa : ℚ) * 4 < 10 ^ 16 * (x.roundingInterval.high - x.roundingInterval.low) := by
    have hnat : x.mantissa * 4 + 10 ^ 16 * x.roundingInterval.low < 10 ^ 16 * x.roundingInterval.high := by
      simp only [roundingInterval]
      split
      · next hleast =>
        have hm : x.mantissa = 2 ^ 52 := by
          simp only [Bool.and_eq_true, decide_eq_true_eq] at hleast
          exact hleast.1
        omega
      · omega
    have hcast : (x.mantissa : ℚ) * 4 + 10 ^ 16 * x.roundingInterval.low < 10 ^ 16 * x.roundingInterval.high := by
      exact_mod_cast hnat
    linarith
  rw [hexp]
  rw [hsplit, hquarter, ← mul_assoc] at h
  have hmul := mul_lt_mul_of_pos_right hwide hp
  linarith

/-- The digits found for a number have a size that rounds to it. -/
theorem exists_grid (hm : x.mantissa ≠ 0) : ∃ n d : ℕ, 0 < d ∧
    x.RoundsTo (d * 10 ^ (decimalPoint x.quotient.1.natAbs x.quotient.2 - (n : ℤ))) ∧
    x.shortest = ⟨(significantDigits d).1,
      decimalPoint x.quotient.1.natAbs x.quotient.2 + ((significantDigits d).2 - (n : ℤ))⟩ := by
  obtain ⟨hden, hsize⟩ := quotient_eq x
  obtain ⟨hl, hh⟩ := low_lt_and_lt_high hm
  have hself : x.RoundsTo (x.mantissa * 2 ^ x.exponent) := ⟨hl.le, hh.le, fun _ => ⟨hl, hh⟩⟩
  have hnum : 0 < x.quotient.1.natAbs := by
    have hpos : (0 : ℚ) < x.quotient.1.natAbs / x.quotient.2 := by
      rw [hsize]
      have : (0 : ℚ) < x.mantissa := Nat.cast_pos.mpr (Nat.pos_of_ne_zero hm)
      exact mul_pos this (two_zpow_pos _)
    by_contra hzero
    rw [Nat.eq_zero_of_not_pos hzero] at hpos
    simp at hpos
  have hpoint := decimalPoint_spec hnum hden (hsize ▸ hself.min_le hx hm) (hsize ▸ hself.lt_max hx)
  unfold shortest
  simp only
  generalize x.quotient.1.natAbs = num at *
  generalize x.quotient.2 = den at *
  rw [← hsize] at hl hh
  have hfine := ten_pow_lt_width hx (hsize ▸ hpoint.1)
  obtain ⟨d17, hd17⟩ := exists_nearestOnGrid? (n := 17) hden hl hh hfine
  have hsome : ((List.range 17).findSome? fun k =>
      (nearestOnGrid? x.roundingInterval num den (decimalPoint num den) (k + 1)).map (k + 1, ·)).isSome = true := by
    rw [List.findSome?_isSome_iff]
    exact ⟨16, List.mem_range.mpr (by decide), by rw [hd17]; rfl⟩
  obtain ⟨⟨n, d⟩, hfound⟩ := Option.isSome_iff_exists.mp hsome
  obtain ⟨k, -, hk⟩ := List.exists_of_findSome?_eq_some hfound
  obtain ⟨d', hd', heq⟩ := Option.map_eq_some_iff.mp hk
  cases heq
  obtain ⟨hpos, hround⟩ := nearestOnGrid?_spec hd'
  rw [hfound]
  exact ⟨k + 1, d, hpos, hround, rfl⟩

end

end TopologyConfig.Binary64
