import TopologyConfig.Json.Reader
import TopologyConfig.Proofs.ConfigMap.Basic
import TopologyConfig.Proofs.Json.Text

/-!
What the reader of JSON can fail on. Beside its own faults there is one conversion: a whole number with too many digits.
-/
namespace TopologyConfig.Json

open Numeral (AreDigits)

/-- A run of digits in the text is too long for a number. -/
def LongNumber (text : List Char) (e : NumeralError) : Prop :=
  ∃ ds, ds <:+: text ∧ AreDigits ds ∧ maxDigits < ds.length ∧ e = .tooLongToRead ds.length

theorem LongNumber.of_infix {text rest : List Char} {e : NumeralError} (h : LongNumber rest e) (hin : rest <:+: text) :
    LongNumber text e := by
  obtain ⟨ds, hds, hrest⟩ := h
  exact ⟨ds, hds.trans hin, hrest⟩

/-- The reader goes forward, or stops at a fault of its own or at a long number. -/
def Scans {α : Type} (c : Cursor) : Except Stop (α × Cursor) → Prop
  | .ok p => p.2.rest <:+ c.rest
  | .error (.at _ _) => True
  | .error (.numeral e) => LongNumber c.rest e

section

variable {α β : Type} {c d : Cursor} {r : Except Stop (α × Cursor)}

theorem Scans.mono (h : Scans d r) (hd : d.rest <:+ c.rest) : Scans c r := by
  cases r with
  | ok p => exact List.IsSuffix.trans h hd
  | error s =>
    cases s with
    | «at» p n => exact trivial
    | numeral e => exact h.of_infix hd.isInfix

theorem Scans.bind {k : α × Cursor → Except Stop (β × Cursor)} (h : Scans c r) (hk : ∀ p, Scans p.2 (k p)) :
    Scans c (r >>= k) := by
  cases r with
  | ok p => exact (hk p).mono h
  | error s => cases s <;> exact h

theorem Scans.map (h : Scans c r) (f : α → β) : Scans c (r.map fun p => (f p.1, p.2)) := by
  cases r with
  | ok p => exact h
  | error s => cases s <;> exact h

theorem scans_fail (c : Cursor) (p : Problem) : Scans c (d.fail p : Except Stop (α × Cursor)) := trivial

end

section

variable {c : Cursor}

theorem drop_suffix (n : Nat) (c : Cursor) : (c.drop n).rest <:+ c.rest := List.drop_suffix n c.rest

theorem skipSpace_suffix (c : Cursor) : c.skipSpace.rest <:+ c.rest := drop_suffix _ c

theorem scans_readUnit (c : Cursor) : Scans c (readUnit c) := by
  have h6 := drop_suffix 6 c
  have h12 := (drop_suffix 6 (c.drop 6)).trans h6
  unfold readUnit
  dsimp only
  split
  · exact scans_fail c _
  · split
    · exact scans_fail c _
    · split
      · split
        · split
          · exact scans_fail c _
          · split
            · exact h12
            · exact h6
        · exact h6
      · exact h6

theorem scans_readChars (start fuel : Nat) : ∀ c, Scans c (readChars start fuel c) := by
  induction fuel with
  | zero => exact fun c => trivial
  | succ fuel ih =>
    intro c
    have hmore : ∀ (x : Char) (next : Cursor), Scans next (readChars start fuel next >>=
        fun p => pure (x :: p.1, p.2)) := fun x next => (ih next).bind fun p => List.suffix_refl _
    rw [readChars]
    split
    · exact trivial
    · exact drop_suffix 1 c
    · exact trivial
    · exact (scans_readUnit c).bind fun p => hmore _ _
    · split
      · exact scans_fail c _
      · exact (hmore _ _).mono (drop_suffix 2 c)
    · split
      · exact scans_fail c _
      · exact (hmore _ _).mono (drop_suffix 1 c)

theorem scans_readString (c : Cursor) : Scans c (readString c) :=
  ((scans_readChars _ _ _).mono (drop_suffix 1 c)).map _

theorem areDigits_wholeDigits (cs : List Char) : AreDigits (wholeDigits cs) ∧ wholeDigits cs <+: cs := by
  unfold wholeDigits
  split
  · next rest =>
    exact ⟨by simp [AreDigits, Char.isDigit], ⟨rest, rfl⟩⟩
  · exact ⟨fun c hc => List.mem_takeWhile_imp hc, List.takeWhile_prefix _⟩

theorem scans_readScalar (c : Cursor) : Scans c (readScalar c) := by
  unfold readScalar
  split
  · exact drop_suffix _ c
  · split
    · exact scans_fail c _
    · next p hp =>
      split
      · exact drop_suffix _ c
      · next e he =>
        unfold splitNumber? at hp
        dsimp only at hp
        generalize hbody : (if (c.rest.head? == some '-') = true then c.rest.drop 1 else c.rest) = body at hp
        by_cases hne : (wholeDigits body).isEmpty = true
        · rw [if_pos hne] at hp
          cases hp
        · rw [if_neg hne] at hp
          cases hp
          obtain ⟨hdigits, hprefix⟩ := areDigits_wholeDigits body
          have hsuffix : body <:+ c.rest := by
            rw [← hbody]
            split
            · exact List.drop_suffix 1 _
            · exact List.suffix_refl _
          have hread := Numeral.read_ten_of_areDigits (c.rest.head? == some '-') hdigits (by simpa using hne)
          unfold NumberParts.value at he
          dsimp only at he
          split at he
          · rw [hread] at he
            split at he
            · next hlong =>
              cases he
              exact ⟨_, hprefix.isInfix.trans hsuffix.isInfix, hdigits, hlong, rfl⟩
            · cases he
          · split at he <;> cases he

end

/-- All readers of values go forward. -/
structure ScansAll (fuel : Nat) : Prop where
  value : ∀ c, Scans c (readValue fuel c)
  members : ∀ es c, Scans c (readMembers fuel es c)
  items : ∀ c, Scans c (readItems fuel c)

theorem scansAll (fuel : Nat) : ScansAll fuel := by
  induction fuel with
  | zero => exact ⟨fun c => scans_fail c _, fun _ c => scans_fail c _, fun c => scans_fail c _⟩
  | succ fuel ih =>
    have hdrop : ∀ c : Cursor, (c.drop 1).skipSpace.rest <:+ c.rest := fun c =>
      (skipSpace_suffix _).trans (drop_suffix 1 c)
    constructor
    case value =>
      intro c
      rw [readValue]
      split
      · exact (scans_readString c).map _
      · dsimp only
        split
        · exact (drop_suffix 1 _).trans (hdrop c)
        · exact ((ih.members _ _).mono (hdrop c)).map _
      · dsimp only
        split
        · exact (drop_suffix 1 _).trans (hdrop c)
        · exact ((ih.items _).mono (hdrop c)).map _
      · exact scans_readScalar c
    case members =>
      intro es c
      rw [readMembers]
      split
      · refine (scans_readString c).bind fun p => ?_
        refine Scans.mono ?_ (skipSpace_suffix p.2)
        dsimp only
        split
        · refine ((ih.value _).mono (hdrop _)).bind fun q => ?_
          refine Scans.mono ?_ (skipSpace_suffix q.2)
          split
          · exact drop_suffix 1 _
          · exact (ih.members _ _).mono (hdrop _)
          · exact scans_fail _ _
        · exact scans_fail _ _
      · exact scans_fail c _
    case items =>
      intro c
      rw [readItems]
      refine (ih.value c).bind fun p => ?_
      refine Scans.mono ?_ (skipSpace_suffix p.2)
      dsimp only
      split
      · exact drop_suffix 1 _
      · refine ((ih.items _).mono (hdrop _)).bind fun q => ?_
        exact List.suffix_refl _
      · exact scans_fail _ _

/-- Where reading fails outside of the reader's own faults, a number in the text is too long. -/
theorem longNumber_of_read {text : String} {e : NumeralError} (h : read text = .error (.numeral e)) :
    LongNumber text.toList e := by
  have hvalue := ((scansAll (2 * text.toList.length + 2)).value (Cursor.mk text.toList 0).skipSpace).mono
    (skipSpace_suffix ⟨text.toList, 0⟩)
  unfold read at h
  split at h
  · cases h
  · cases h
  · next e' he =>
    cases h
    unfold readAll at he
    split at he
    · cases he
    · cases hr : readValue (2 * text.toList.length + 2) (Cursor.mk text.toList 0).skipSpace with
      | ok p =>
        rw [hr] at he
        simp only [bind, Except.bind] at he
        split at he <;> cases he
      | error s =>
        rw [hr] at he hvalue
        cases he
        exact hvalue

/-- A whole number with too many digits stops the reader. -/
theorem read_toDigits {n : Nat} (hlong : maxDigits < (Nat.toDigits 10 n).length) :
    read (String.ofList (Nat.toDigits 10 n)) = .error (.numeral (.tooLongToRead (Nat.toDigits 10 n).length)) := by
  have hdigits := Numeral.areDigits_toDigits n
  obtain ⟨d, ds, hds⟩ := List.exists_cons_of_ne_nil (Nat.toDigits_ne_nil (n := n) (b := 10))
  have hd : d.isDigit = true := hdigits d (by rw [hds]; exact List.mem_cons_self)
  have hchars : (wholeText n).chars = Nat.toDigits 10 n := by
    simp [Binary64.DecimalText.chars, Binary64.DecimalText.pointChars, Binary64.DecimalText.exponentChars, wholeText]
  have hends : Ends [] := by simp [Ends]
  have hsplit := splitNumber?_chars (wholeText n) false hends
  have hword := find?_words_chars (wholeText n) false []
  simp only [Bool.false_eq_true, if_false, List.nil_append, List.append_nil, hchars] at hsplit hword
  have hnumeral := Numeral.read_ten_of_areDigits false hdigits Nat.toDigits_ne_nil
  rw [if_pos hlong] at hnumeral
  have hvalue : NumberParts.value ⟨false, (wholeText n).whole, (wholeText n).pointChars, (wholeText n).exponentChars⟩ =
      .error (.tooLongToRead (Nat.toDigits 10 n).length) := by
    have hempty : ((wholeText n).pointChars.isEmpty && (wholeText n).exponentChars.isEmpty) = true := by
      simp [Binary64.DecimalText.pointChars, Binary64.DecimalText.exponentChars, wholeText]
    have hwhole : (wholeText n).whole = Nat.toDigits 10 n := rfl
    simp only [NumberParts.value, hempty, if_true, hwhole, hnumeral]
    rfl
  have hscalar : readScalar ⟨Nat.toDigits 10 n, 0⟩ = .error (.numeral (.tooLongToRead (Nat.toDigits 10 n).length)) := by
    simp only [readScalar, hword, hsplit, hvalue]
  have hne : ∀ c : Char, c.isDigit = false → d ≠ c := fun c hc => Numeral.ne_of_isDigit hd hc
  have hspace : (Cursor.mk (Nat.toDigits 10 n) 0).skipSpace = ⟨Nat.toDigits 10 n, 0⟩ := by
    have htake : (Nat.toDigits 10 n).takeWhile Cursor.isSpace = [] := by
      rw [hds, List.takeWhile_cons_of_neg]
      simp [Cursor.isSpace, hne]
    rw [Cursor.skipSpace, htake]
    rfl
  have hreadValue : readValue (2 * (Nat.toDigits 10 n).length + 2) ⟨Nat.toDigits 10 n, 0⟩ =
      readScalar ⟨Nat.toDigits 10 n, 0⟩ := by
    rw [readValue]
    split
    all_goals first
      | rfl
      | next h => exact absurd ((List.cons.inj (hds.symm.trans h)).1) (hne _ rfl)
  have hmark : ¬ ((Nat.toDigits 10 n).head? == some (Char.ofNat 0xFEFF)) = true := by
    have hd' : d ≠ Char.ofNat 0xFEFF := hne _ (by decide)
    simpa [hds] using hd'
  rw [read, String.toList_ofList, readAll, if_neg hmark, hspace, hreadValue, hscalar]
  rfl

end TopologyConfig.Json
