import TopologyConfig.Number.Numeral
import Mathlib.Data.List.TakeWhile

/-!
Numerals in base ten. A text of ASCII digits is read as the number that they spell, unless there are too many of
them; a number that can be written is read back from what is written.
-/
namespace TopologyConfig.Numeral

/-- The characters are ASCII digits. -/
def AreDigits (cs : List Char) : Prop := ∀ c ∈ cs, c.isDigit = true

theorem AreDigits.append {cs ds : List Char} (hc : AreDigits cs) (hd : AreDigits ds) : AreDigits (cs ++ ds) :=
  fun c hin => (List.mem_append.mp hin).elim (hc c) (hd c)

theorem areDigits_toDigits (n : Nat) : AreDigits (Nat.toDigits 10 n) :=
  fun _ hc => Nat.isDigit_of_mem_toDigits (by decide) (by decide) hc

theorem areDigits_replicate_zero (n : Nat) : AreDigits (List.replicate n '0') := by
  intro c hc
  rw [List.eq_of_mem_replicate hc]
  rfl

section

variable {c : Char}

theorem toNat_of_isDigit (h : c.isDigit = true) : 48 ≤ c.toNat ∧ c.toNat ≤ 57 := Char.isDigit_iff_toNat.mp h

theorem ne_of_isDigit (h : c.isDigit = true) {d : Char} (hd : d.isDigit = false) : c ≠ d := by
  rintro rfl
  simp [h] at hd

theorem digitValue?_of_isDigit (h : c.isDigit = true) : digitValue? c = some (c.toNat - 48) := by
  obtain ⟨hlow, hhigh⟩ := toNat_of_isDigit h
  have hlower : ¬ ('a' ≤ c ∧ c ≤ 'z') := fun ⟨hle, _⟩ => by
    have : 97 ≤ c.toNat := Char.le_def.mp hle
    omega
  have hupper : ¬ ('A' ≤ c ∧ c ≤ 'Z') := fun ⟨hle, _⟩ => by
    have : 65 ≤ c.toNat := Char.le_def.mp hle
    omega
  have hfirst : (decide (48 ≤ c.toNat) && decide (c.toNat < 48 + 10)) = true := by
    rw [Bool.and_eq_true, decide_eq_true_eq, decide_eq_true_eq]
    omega
  have hzero : decimalZeros.find? (fun z => z ≤ c.toNat && c.toNat < z + 10) = some 48 :=
    List.find?_cons_of_pos hfirst
  simp only [digitValue?, Bool.and_eq_true, decide_eq_true_eq, if_neg hlower, if_neg hupper, decimalValue?, hzero,
    Option.map_some]

theorem isDigitIn_ten_of_isDigit (h : c.isDigit = true) : isDigitIn 10 c = true := by
  obtain ⟨hlow, hhigh⟩ := toNat_of_isDigit h
  rw [isDigitIn, digitValue?_of_isDigit h, decide_eq_true_eq]
  omega

theorem isBlank_eq_false_of_isDigit (h : c.isDigit = true) : Text.isBlank c = false := by
  obtain ⟨hlow, hhigh⟩ := toNat_of_isDigit h
  simp only [Text.isBlank, Bool.or_eq_false_iff, Bool.and_eq_false_iff, decide_eq_false_iff_not, beq_eq_false_iff_ne]
  omega

theorem isPadding_eq_false_of_isDigit (h : c.isDigit = true) : isPadding c = false := by
  rw [isPadding, isBlank_eq_false_of_isDigit h, Bool.false_and]

end

section

variable {cs : List Char}

theorem value_eq_ofDigitChars (h : AreDigits cs) : value 10 cs = Nat.ofDigitChars 10 cs 0 := by
  rw [value]
  generalize 0 = n
  induction cs generalizing n with
  | nil => rfl
  | cons c cs ih =>
    have hc := digitValue?_of_isDigit (h c List.mem_cons_self)
    rw [List.foldl_cons, Nat.ofDigitChars_cons, ih (fun d hd => h d (List.mem_cons_of_mem c hd)), hc, Nat.mul_comm]
    rfl

theorem wellGrouped_of_areDigits (h : AreDigits cs) (hne : cs ≠ []) : wellGrouped 10 cs = true := by
  induction cs with
  | nil => exact absurd rfl hne
  | cons c cs ih =>
    obtain ⟨hc, hcs⟩ := List.forall_mem_cons.mp h
    have hdigit := isDigitIn_ten_of_isDigit hc
    cases cs with
    | nil => exact hdigit
    | cons d ds =>
      have hd : d ≠ '_' := ne_of_isDigit (hcs d List.mem_cons_self) rfl
      rw [wellGrouped, hdigit, ih hcs (List.cons_ne_nil d ds), Bool.and_true]
      · exact fun h => nomatch h
      · exact fun rest h => hd (List.cons.inj h).1

theorem leadingDigits_of_areDigits (h : AreDigits cs) (hne : cs ≠ []) : leadingDigits cs = some cs.length := by
  have hrun : cs.takeWhile (fun c => c == '_' || isDigitIn 10 c) = cs := by
    refine List.takeWhile_eq_self_iff.mpr fun c hc => ?_
    rw [isDigitIn_ten_of_isDigit (h c hc), Bool.or_true]
  have hcount : cs.countP (· != '_') = cs.length := by
    refine List.countP_eq_length.mpr fun c hc => bne_iff_ne.mpr ?_
    exact ne_of_isDigit (h c hc) rfl
  rw [leadingDigits, hrun, if_pos (wellGrouped_of_areDigits h hne), hcount]

theorem splitSign_of_areDigits (h : AreDigits cs) : splitSign cs = (false, cs) := by
  cases cs with
  | nil => rfl
  | cons c cs =>
    have hc := h c List.mem_cons_self
    have hminus : c ≠ '-' := ne_of_isDigit hc rfl
    have hplus : c ≠ '+' := ne_of_isDigit hc rfl
    unfold splitSign
    split <;> simp_all

theorem dropBaseMark_ten (cs : List Char) : dropBaseMark 10 cs = cs := by
  unfold dropBaseMark
  split
  · rw [if_neg (by simp [baseLetter])]
  · rfl

theorem dropWhile_isPadding {negative : Bool} (h : AreDigits cs) :
    let text := (if negative then ['-'] else []) ++ cs
    ((text.dropWhile isPadding).reverse.dropWhile isPadding).reverse = text := by
  intro text
  have hmem : ∀ c ∈ text, isPadding c = false := by
    intro c hc
    rcases List.mem_append.mp hc with hc | hc
    · cases negative with
      | true => rw [List.mem_singleton.mp hc]; rfl
      | false => exact absurd hc List.not_mem_nil
    · exact isPadding_eq_false_of_isDigit (h c hc)
  have hself : ∀ ds : List Char, (∀ c ∈ ds, isPadding c = false) → ds.dropWhile isPadding = ds := by
    intro ds hds
    cases ds with
    | nil => rfl
    | cons d ds => rw [List.dropWhile_cons_of_neg (by simp [hds d List.mem_cons_self])]
  rw [hself text hmem, hself text.reverse (fun c hc => hmem c (List.mem_reverse.mp hc)), List.reverse_reverse]

/-- A sign and digits are read as the number that they spell, unless there are too many. -/
theorem read_ten_of_areDigits (negative : Bool) (h : AreDigits cs) (hne : cs ≠ []) :
    read 10 (String.ofList ((if negative then ['-'] else []) ++ cs)) =
      if cs.length > maxDigits then .error (.tooLongToRead cs.length)
      else .ok (if negative then -Int.ofNat (Nat.ofDigitChars 10 cs 0) else Int.ofNat (Nat.ofDigitChars 10 cs 0)) := by
  have hsplit : splitSign ((if negative then ['-'] else []) ++ cs) = (negative, cs) := by
    cases negative with
    | true => rfl
    | false => exact splitSign_of_areDigits h
  rw [read, String.toList_ofList, dropWhile_isPadding h, hsplit]
  simp only [dropBaseMark_ten, leadingDigits_of_areDigits h hne, if_true]
  rw [read.finish, if_pos (wellGrouped_of_areDigits h hne), value_eq_ofDigitChars h]

end

theorem toList_toString (n : Int) :
    (toString n).toList = (if n < 0 then ['-'] else []) ++ Nat.toDigits 10 n.natAbs := by
  rw [Int.toString_eq_repr, Int.repr_eq_if]
  by_cases h : 0 ≤ n
  · have habs : n.toNat = n.natAbs := by omega
    rw [if_pos h, if_neg (by omega), habs, Nat.toList_repr, List.nil_append]
  · have habs : (-n).toNat = n.natAbs := by omega
    rw [if_neg h, if_pos (by omega), habs, String.toList_append, Nat.toList_repr]
    rfl

theorem toDigits_ne_zero_head {n : Nat} (h : n ≠ 0) : (Nat.toDigits 10 n).head? ≠ some '0' := by
  induction n using Nat.strongRecOn with
  | ind n ih =>
    by_cases hn : n < 10
    · have hchar : n.digitChar ≠ '0' := (by decide : ∀ m < 10, m ≠ 0 → m.digitChar ≠ '0') n hn h
      rw [Nat.toDigits_of_lt_base hn, List.head?_cons]
      exact fun he => hchar (Option.some.inj he)
    · have hdiv : n / 10 ≠ 0 := by omega
      obtain ⟨c, hc⟩ := Option.isSome_iff_exists.mp (List.isSome_head?.mpr (Nat.toDigits_ne_nil (n := n / 10) (b := 10)))
      have hfirst := ih (n / 10) (by omega) hdiv
      rw [Nat.toDigits_of_base_le (by decide) (by omega), List.head?_append, hc]
      rwa [hc] at hfirst

theorem isWritable_iff {n : Int} : isWritable n = true ↔ (Nat.toDigits 10 n.natAbs).length ≤ maxDigits := by
  have hpos : 0 < maxDigits := by decide
  unfold isWritable
  generalize maxDigits = most at hpos ⊢
  rw [decide_eq_true_eq]
  exact (Nat.length_toDigits_le_iff (by decide) hpos).symm

/-- What is written is read back. -/
theorem read_toString {n : Int} (h : isWritable n = true) : read 10 (toString n) = .ok n := by
  have hread := read_ten_of_areDigits (decide (n < 0)) (areDigits_toDigits n.natAbs) Nat.toDigits_ne_nil
  rw [if_neg (Nat.not_lt.mpr (isWritable_iff.mp h))] at hread
  have htext : String.ofList ((if decide (n < 0) = true then ['-'] else []) ++ Nat.toDigits 10 n.natAbs) =
      toString n := by
    simp only [decide_eq_true_eq, ← toList_toString, String.ofList_toList]
  rw [htext, Nat.ofDigitChars_ten_toDigits] at hread
  rw [hread]
  by_cases hn : n < 0
  · rw [if_pos (decide_eq_true hn)]
    exact congrArg Except.ok (by rw [Int.ofNat_eq_natCast]; omega)
  · rw [if_neg (by simpa using hn)]
    exact congrArg Except.ok (by rw [Int.ofNat_eq_natCast]; omega)

end TopologyConfig.Numeral
