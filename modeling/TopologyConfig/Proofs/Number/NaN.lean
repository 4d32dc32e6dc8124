import TopologyConfig.Proofs.Number.DecimalText

/-!
Floats that are no number. Rounding makes none, so a float that was read is one only if its text says so. A sum, a
product or a change of sign passes on the one that it was given; otherwise the only one that it makes is `nan 0`.
-/
namespace TopologyConfig.Binary64

theorem isNaN_infinity (negative : Bool) : (infinity negative).isNaN = false := by
  cases negative <;> rfl

theorem isNaN_zero (negative : Bool) : (zero negative).isNaN = false := by
  cases negative <;> rfl

theorem isNaN_ofFields (negative : Bool) {f m : ℕ} (hf : f < 2047) (hm : m < 2 ^ 52) :
    (ofFields negative f m).isNaN = false := by
  obtain ⟨-, hfield, -⟩ := fields_ofFields negative (by omega : f < 2 ^ 11) hm
  rw [isNaN, hfield]
  simp [hf.ne]

theorem pow_two_pos (n : ℕ) : 0 < Nat.pow 2 n := Nat.pow_pos (by decide)

theorem roundHalfEven_le (q r d : ℕ) : roundHalfEven q r d ≤ q + 1 := by
  unfold roundHalfEven
  split <;> omega

/-- Under its exponent a quotient has at most 53 bits before the point. -/
theorem scaledQuotient_lt {num den : ℕ} (hn : 0 < num) (hd : 0 < den) :
    (scaledQuotient num den (-ratioExponent num den)).1 < 2 ^ 53 := by
  generalize he : ratioExponent num den = e
  have hlog : Int.log 2 ((num : ℚ) / den) + 1 ≤ 53 + e := by
    rw [ratioExponent_eq_log hn hd] at he
    omega
  have hquotient : (num : ℚ) / den < 2 ^ (53 + e) := by
    have htop := Int.lt_zpow_succ_log_self (b := 2) (by decide) ((num : ℚ) / den)
    push_cast at htop
    exact htop.trans_le (zpow_le_zpow_right₀ (by norm_num) hlog)
  have hpos : 0 < den * Nat.pow 2 (- -e).toNat := Nat.mul_pos hd (pow_two_pos _)
  refine (div_lt_iff_cast hpos).mpr ?_
  rw [cast_scaled, zpow_neg, ← div_eq_mul_inv, div_lt_iff₀ (two_zpow_pos e)]
  rw [zpow_add₀ (by norm_num)] at hquotient
  exact_mod_cast hquotient

/-- The number nearest to a quotient is one. -/
theorem isNaN_ofRatio (negative : Bool) (num : ℕ) {den : ℕ} (hd : 0 < den) :
    (ofRatio negative num den).isNaN = false := by
  by_cases hn : num = 0
  · rw [ofRatio, if_pos hn]
    exact isNaN_zero negative
  · have hq := scaledQuotient_lt (Nat.pos_of_ne_zero hn) hd
    have hm := (roundHalfEven_le _ (scaledQuotient num den (-ratioExponent num den)).2.1
      (scaledQuotient num den (-ratioExponent num den)).2.2).trans (Nat.succ_le_of_lt hq)
    rw [ofRatio_eq hn negative rfl rfl]
    generalize ratioExponent num den = e at hm ⊢
    generalize roundHalfEven _ _ _ = m at hm ⊢
    by_cases hsmall : m < 2 ^ 52
    · rw [if_pos hsmall]
      exact isNaN_ofFields negative (by decide) hsmall
    · rw [if_neg hsmall]
      by_cases htop : m = 2 ^ 53
      · simp only [if_pos htop]
        split
        · exact isNaN_infinity negative
        · exact isNaN_ofFields negative (by omega) (by decide)
      · simp only [if_neg htop]
        split
        · exact isNaN_infinity negative
        · exact isNaN_ofFields negative (by omega) (by omega)

theorem isNaN_ofInt (n : ℤ) : (ofInt n).isNaN = false := isNaN_ofRatio _ _ Nat.one_pos

theorem isNaN_ofDecimal (negative : Bool) (digits : ℕ) (exponent : ℤ) :
    (ofDecimal negative digits exponent).isNaN = false := by
  unfold ofDecimal
  dsimp only
  split
  · exact isNaN_zero negative
  · split
    · exact isNaN_infinity negative
    · split
      · exact isNaN_zero negative
      · exact isNaN_ofRatio negative _ (Nat.pow_pos (by decide))

section

variable {x y : Binary64}

theorem neg_eq_of_isNaN (h : x.neg.isNaN = true) : x.neg = x := by
  by_cases hnan : x.isNaN = true
  · rw [neg, if_pos hnan]
  · exfalso
    rw [neg, if_neg hnan] at h
    have hfield : x.exponentField < 2 ^ 11 := Nat.mod_lt _ (by decide)
    obtain ⟨-, hsame, hpart⟩ := fields_ofFields (!x.isNegative) hfield (fraction_lt x)
    rw [isNaN, hsame, hpart] at h
    exact hnan h

theorem add_eq_of_isNaN (h : (x.add y).isNaN = true) : x.add y = x ∨ x.add y = y ∨ x.add y = nan 0 := by
  unfold add at h ⊢
  split
  · exact .inl rfl
  · split
    · exact .inr (.inl rfl)
    · split
      · split
        · exact .inr (.inr rfl)
        · exact .inl rfl
      · split
        · exact .inr (.inl rfl)
        · next hx hy hxinf hyinf =>
          rw [if_neg hx, if_neg hy, if_neg hxinf, if_neg hyinf] at h
          dsimp only at h
          split at h
          · rw [isNaN_zero] at h
            cases h
          · rw [isNaN_ofRatio _ _ (pow_two_pos _)] at h
            cases h

theorem mul_eq_of_isNaN (h : (x.mul y).isNaN = true) : x.mul y = x ∨ x.mul y = y ∨ x.mul y = nan 0 := by
  unfold mul at h ⊢
  dsimp only at h ⊢
  split
  · exact .inl rfl
  · split
    · exact .inr (.inl rfl)
    · next hx hy =>
      rw [if_neg hx, if_neg hy] at h
      split
      · split
        · exact .inr (.inr rfl)
        · next hinf hzero =>
          rw [if_pos hinf, if_neg hzero, isNaN_infinity] at h
          cases h
      · next hfinite =>
        rw [if_neg hfinite, isNaN_ofRatio _ _ (pow_two_pos _)] at h
        cases h

/-- A text is read as a number, or names the one value that is none. -/
theorem read?_eq_of_isNaN {text : String} (h : read? text = some x) (hnan : x.isNaN = true) : x = nan 0 := by
  unfold read? at h
  dsimp only at h
  split at h
  · obtain rfl := Option.some.inj h
    rw [isNaN_infinity] at hnan
    cases hnan
  · split at h
    · exact (Option.some.inj h).symm
    · split at h
      · obtain ⟨l, -, rfl⟩ := Option.map_eq_some_iff.mp h
        rw [Literal.toBinary64, isNaN_ofDecimal] at hnan
        cases hnan
      · cases h

end

end TopologyConfig.Binary64
