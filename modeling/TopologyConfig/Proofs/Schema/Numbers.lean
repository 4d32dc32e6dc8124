import TopologyConfig.Proofs.Schema.Frozen
import TopologyConfig.Proofs.Value.Document
import Mathlib.Algebra.Ring.Int.Defs
import Mathlib.Data.Nat.Cast.Basic

/-!
Verdicts on numbers. A power of two is told by its binary digits. No shape looks at which number a float is, so that a
value is still accepted when other floats stand in the places of those that are no numbers.
-/
namespace TopologyConfig

open Value

/-- Only floats, lists and maps are changed. -/
theorem Value.withNaN_cases (x : Binary64) (v : Value) :
    v.withNaN x = v ∨ (∃ y z, v = .float y ∧ v.withNaN x = .float z) ∨ (∃ vs, v = .list vs) ∨ ∃ es, v = .map es := by
  cases v with
  | float y =>
    refine .inr (.inl ?_)
    rw [withNaN]
    split <;> exact ⟨y, _, rfl, rfl⟩
  | list vs => exact .inr (.inr (.inl ⟨vs, rfl⟩))
  | map es => exact .inr (.inr (.inr ⟨es, rfl⟩))
  | _ => exact .inl rfl

namespace Shape

theorem isPowerOfTwo_int_iff {n : ℤ} : isPowerOfTwo (.int n) = true ↔ ∃ k : ℕ, n = 2 ^ k := by
  rw [isPowerOfTwo, Bool.and_eq_true, decide_eq_true_eq, beq_iff_eq]
  constructor
  · rintro ⟨hpos, hbits⟩
    obtain ⟨k, hk⟩ := (Nat.and_sub_one_eq_zero_iff_isPowerOfTwo (by omega)).mp hbits
    refine ⟨k, ?_⟩
    calc n = (n.toNat : ℤ) := by omega
      _ = ((2 ^ k : ℕ) : ℤ) := by rw [hk]
      _ = 2 ^ k := Nat.cast_pow 2 k
  · rintro ⟨k, rfl⟩
    have hnat : (2 : ℤ) ^ k = ((2 ^ k : ℕ) : ℤ) := (Nat.cast_pow 2 k).symm
    have hpos : 0 < 2 ^ k := Nat.two_pow_pos k
    rw [hnat, Int.toNat_natCast]
    exact ⟨by omega, (Nat.and_sub_one_eq_zero_iff_isPowerOfTwo (by omega)).mpr ⟨k, rfl⟩⟩

/-- The powers of two are the integers `2 ^ k` alone: no other integer, whatever its sign, no truth value and no
float. -/
theorem accepts_powerOfTwo_iff {v : Value} : powerOfTwo.accepts v = true ↔ ∃ k : ℕ, v = .int (2 ^ k) := by
  cases v with
  | int n =>
    rw [accepts, isPowerOfTwo_int_iff]
    exact exists_congr fun k => Value.int.injEq n (2 ^ k) ▸ Iff.rfl
  | _ => exact iff_of_false Bool.false_ne_true (by rintro ⟨_, ⟨⟩⟩)

theorem accepts_float_of_isScalar {s : Shape} (hs : s.isScalar = true) (y z : Binary64) :
    s.accepts (.float y) = s.accepts (.float z) := by
  cases s <;> first | rfl | cases hs

theorem isIdentifier_withNaN {v : Value} (x : Binary64) (h : isIdentifier v = true) : v.withNaN x = v := by
  cases v <;> first | rfl | cases h

theorem accepts_withNaN {s : Shape} {v : Value} (x : Binary64) (h : s.accepts v = true) :
    s.accepts (v.withNaN x) = true := by
  induction s using Shape.induction generalizing v with
  | scalar s hs =>
    rcases withNaN_cases x v with hv | ⟨y, z, rfl, hz⟩ | ⟨vs, rfl⟩ | ⟨es, rfl⟩
    · rwa [hv]
    · rwa [hz, accepts_float_of_isScalar hs z y]
    · cases isLeaf_of_accepts hs h
    · cases isLeaf_of_accepts hs h
  | map =>
    rcases withNaN_cases x v with hv | ⟨y, z, rfl, -⟩ | ⟨vs, rfl⟩ | ⟨es, rfl⟩
    · rwa [hv]
    · cases h
    · cases h
    · rw [withNaN_map]
      rfl
  | serializationEntry =>
    rcases isSerializationEntry_iff.mp h with ⟨s, rfl, -⟩ | ⟨c, s, hes, hc, hs⟩
    · exact h
    -- The only value is a text.
    · rcases withNaN_cases x v with hv | ⟨y, z, rfl, -⟩ | ⟨vs, rfl⟩ | ⟨es, rfl⟩
      · rwa [hv]
      · cases hes
      · cases hes
      · obtain rfl : es = [(c, s)] := Option.some.inj hes
        have hsame : mapValues (withNaN x) [(c, s)] = [(c, s)] := by simp [mapValues, isIdentifier_withNaN x hs]
        rwa [withNaN_map, hsame]
  | metricsConsumerEntry =>
    rcases metricsConsumerProblem_eq_none_iff.mp h with ⟨s, rfl, -⟩ | ⟨fs, hfs, hfaults⟩
    · exact h
    · rcases withNaN_cases x v with hv | ⟨y, z, rfl, -⟩ | ⟨vs, rfl⟩ | ⟨es, rfl⟩
      · rwa [hv]
      · cases hfs
      · cases hfs
      · obtain rfl : es = fs := Option.some.inj hfs
        rw [withNaN_map]
        refine metricsConsumerProblem_eq_none_iff.mpr (.inr ⟨_, rfl, ?_⟩)
        refine MetricsConsumer.entryFaults_eq_nil_of_fields (R := fun v w => w = v.withNaN x) ?_
          (Entries.pointwise_mapValues fun _ _ => rfl) hfaults
        rintro v w hv rfl
        cases v <;> first | rfl | simp [MetricsConsumer.classFault?, MetricsConsumer.hintFault?] at hv
  | listOf s ih =>
    rcases withNaN_cases x v with hv | ⟨y, z, rfl, -⟩ | ⟨vs, rfl⟩ | ⟨es, rfl⟩
    · rwa [hv]
    · cases h
    · have hall : ∀ w ∈ vs, s.accepts w = true := by simpa [accepts, items?] using h
      have hothers : ∀ w ∈ vs, s.accepts (w.withNaN x) = true := fun w hw => ih (hall w hw)
      simpa [accepts, items?] using hothers
    · cases h
  | oneOf ss ih =>
    obtain ⟨s, hs, h⟩ := anyAccepts_iff.mp h
    exact anyAccepts_iff.mpr ⟨s, hs, ih s hs h⟩

end Shape

theorem Registry.allows_withNaN {r : Registry} {key v : Value} (x : Binary64) (h : r.allows key v = true) :
    r.allows key (v.withNaN x) = true := by
  refine allows_iff.mpr fun s hs => ?_
  rcases allows_iff.mp h s hs with rfl | h
  · exact .inl rfl
  · exact .inr (Shape.accepts_withNaN x h)

end TopologyConfig
