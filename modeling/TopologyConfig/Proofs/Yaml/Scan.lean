import Mathlib.Algebra.Group.Nat.Defs
import TopologyConfig.Proofs.ConfigMap.Basic
import TopologyConfig.Proofs.Number.Numeral
import TopologyConfig.Yaml.Token

/-!
What the scanners of YAML can fail on. They go forward in the text, and where they do not find it malformed they fail
on one of two conversions: a version whose number has too many digits, or an escape that names no character.
-/
namespace TopologyConfig.Yaml

open Numeral (AreDigits)

/-- A fault of the text that its form does not show. -/
inductive HiddenFault (text : List Char) : Fault → Prop where
  /-- A number of a version has too many digits. -/
  | version (ds : List Char) (hin : ds <:+: text) (hdigits : AreDigits ds) (hlong : maxDigits < ds.length) :
    HiddenFault text (.numeral (.tooLongToRead ds.length))
  /-- An escape of eight digits is beyond the last character. -/
  | escape (ds : List Char) (n : Nat) (hin : '\\' :: 'U' :: ds <:+: text) (hlen : ds.length = 8)
    (hvalue : hexNumber? ds = some n) (hbig : 0x10FFFF < n) :
    HiddenFault text (if n ≥ Nat.pow 2 31 then .codePointSize else .codePoint)

theorem HiddenFault.of_infix {text rest : List Char} {f : Fault} (h : HiddenFault rest f) (hin : rest <:+: text) :
    HiddenFault text f := by
  cases h with
  | version ds hds hdigits hlong => exact .version ds (hds.trans hin) hdigits hlong
  | escape ds n hds hlen hvalue hbig => exact .escape ds n (hds.trans hin) hlen hvalue hbig

namespace Cursor

/-- The second place is not before the first one. -/
def Reaches (c d : Cursor) : Prop := d.rest <:+ c.rest

variable {c d e : Cursor}

theorem Reaches.refl (c : Cursor) : Reaches c c := List.suffix_refl _

theorem Reaches.trans (h : Reaches c d) (h' : Reaches d e) : Reaches c e := List.IsSuffix.trans h' h

theorem reaches_next (c : Cursor) : Reaches c c.next := by
  unfold Reaches next
  split
  · exact List.suffix_refl _
  · next x rest h =>
    rw [h]
    have hrest : rest <:+ x :: rest := List.suffix_cons x rest
    split
    · exact hrest
    · split <;> exact hrest

theorem reaches_skip (n : Nat) (c : Cursor) : Reaches c (c.skip n) := by
  induction n generalizing c with
  | zero => exact Reaches.refl c
  | succ n ih => exact (reaches_next c).trans (ih c.next)

theorem reaches_skipWhile (p : Char → Bool) (c : Cursor) : Reaches c (c.skipWhile p) := reaches_skip _ c

theorem reaches_skipSpaces (c : Cursor) : Reaches c c.skipSpaces := reaches_skip _ c

theorem reaches_skipComment (c : Cursor) : Reaches c c.skipComment := by
  unfold skipComment
  split
  · exact reaches_skipWhile _ c
  · exact Reaches.refl c

theorem reaches_of_lineBreak? {x : Char} (h : c.lineBreak? = some (x, d)) : Reaches c d := by
  unfold lineBreak? at h
  split at h
  · cases h
    exact reaches_skip 2 c
  any_goals
    cases h
    exact reaches_next c
  cases h

theorem reaches_skipBreak (c : Cursor) : Reaches c c.skipBreak := by
  unfold skipBreak
  cases h : c.lineBreak? with
  | none => exact Reaches.refl c
  | some b => exact reaches_of_lineBreak? h

end Cursor

open Cursor (Reaches)

/-- A scanner reaches a later place, or finds the text malformed or a hidden fault in it. -/
def Scans {α : Type} (c : Cursor) (after : α → Cursor) : Except Fault α → Prop
  | .ok a => Reaches c (after a)
  | .error f => f = .malformed ∨ HiddenFault c.rest f

section

variable {α β : Type} {c d : Cursor} {after : α → Cursor} {after' : β → Cursor} {r : Except Fault α}

theorem scans_malformed : Scans c after (.error .malformed) := .inl rfl

theorem scans_pure {a : α} (h : Reaches c (after a)) : Scans c after (pure a) := h

theorem Scans.mono (h : Scans d after r) (hd : Reaches c d) : Scans c after r := by
  cases r with
  | ok a => exact hd.trans h
  | error f => exact h.imp_right fun hf => hf.of_infix (List.IsSuffix.isInfix hd)

theorem Scans.bind {k : α → Except Fault β} (h : Scans c after r) (hk : ∀ a, Scans (after a) after' (k a)) :
    Scans c after' (r >>= k) := by
  cases r with
  | ok a => exact (hk a).mono h
  | error f => exact h

end

theorem hexDigit?_lt {c : Char} {d : Nat} (h : hexDigit? c = some d) : d < 16 := by
  unfold hexDigit? at h
  split at h
  · next hd =>
    have := Numeral.toNat_of_isDigit hd
    cases h
    omega
  · split at h
    · next hd =>
      simp only [Bool.and_eq_true, decide_eq_true_eq, Char.le_def, UInt32.le_iff_toNat_le] at hd
      have h2 : c.toNat ≤ 102 := hd.2
      cases h
      omega
    · split at h
      · next hd =>
        simp only [Bool.and_eq_true, decide_eq_true_eq, Char.le_def, UInt32.le_iff_toNat_le] at hd
        have h2 : c.toNat ≤ 70 := hd.2
        cases h
        omega
      · cases h

theorem hexNumber?_lt {ds : List Char} {n : Nat} (h : hexNumber? ds = some n) : n < 16 ^ ds.length := by
  suffices hall : ∀ m, ds.foldlM (fun n c => (hexDigit? c).map (n * 16 + ·)) m = some n →
      n < (m + 1) * 16 ^ ds.length by
    have := hall 0 h
    omega
  clear h
  induction ds with
  | nil =>
    intro m h
    cases h
    simp
  | cons c ds ih =>
    intro m h
    rw [List.foldlM_cons] at h
    cases hc : hexDigit? c with
    | none => simp [hc] at h
    | some d =>
      have hd := hexDigit?_lt hc
      simp only [hc, Option.map_some, Option.bind_eq_bind, Option.bind_some] at h
      have hlt := ih (m * 16 + d) h
      have hle : (m * 16 + d + 1) * 16 ^ ds.length ≤ ((m + 1) * 16) * 16 ^ ds.length :=
        Nat.mul_le_mul_right _ (by omega)
      rw [List.length_cons, Nat.pow_succ', ← Nat.mul_assoc]
      omega

namespace QuotedText

theorem scans_breaks (fuel : Nat) : ∀ c, Scans c Scanned.after (breaks fuel c) := by
  induction fuel with
  | zero => exact fun c => Reaches.refl c
  | succ fuel ih =>
    intro c
    rw [breaks]
    split
    · exact scans_malformed
    · have hskip := Cursor.reaches_skipWhile (fun x => x == ' ' || x == '\t') c
      dsimp only
      split
      · exact hskip
      · next b next h =>
        refine Scans.mono ?_ (hskip.trans (Cursor.reaches_of_lineBreak? h))
        refine (ih next).bind fun rest => ?_
        exact Reaches.refl _

theorem scans_breaksAt (c : Cursor) : Scans c Scanned.after (breaksAt c) := scans_breaks _ c

theorem numericLength?_cases {x : Char} {n : Nat} (h : numericLength? x = some n) :
    (n = 2 ∨ n = 4) ∨ (n = 8 ∧ x = 'U') := by
  unfold numericLength? at h
  split at h <;> cases h <;> simp

/-- Only an escape of eight digits can be beyond the last character. -/
theorem scans_escape {c : Cursor} (hc : c.peek = some '\\') : Scans c Scanned.after (escape c) := by
  obtain ⟨rest, index, line, column⟩ := c
  obtain ⟨more, rfl⟩ := List.head?_eq_some_iff.mp hc
  have hnext : (Cursor.next ⟨'\\' :: more, index, line, column⟩) = ⟨more, index + 1, line, column + 1⟩ := rfl
  have hreach : Reaches ⟨'\\' :: more, index, line, column⟩ ⟨more, index + 1, line, column + 1⟩ :=
    List.suffix_cons _ _
  unfold escape
  rw [hnext]
  dsimp only
  cases more with
  | nil => exact scans_malformed
  | cons x rest =>
    dsimp only
    split
    · exact hreach.trans (Cursor.reaches_next _)
    · next n _ hn =>
      split
      · exact scans_malformed
      · next code hcode =>
        split
        · exact scans_malformed
        · next hlong =>
          have hlen : (rest.take n).length = n := by
            have := List.length_take_le n rest
            omega
          have hlt := hexNumber?_lt hcode
          have hskip := hreach.trans (Cursor.reaches_skip (n + 1) _)
          rw [hlen] at hlt
          unfold charOfNumber
          by_cases hbig : 0x10FFFF < code
          · obtain ⟨rfl, rfl⟩ : n = 8 ∧ x = 'U' := by
              rcases numericLength?_cases hn with (rfl | rfl) | h
              · omega
              · omega
              · exact h
            have hin : '\\' :: 'U' :: rest.take 8 <:+: '\\' :: 'U' :: rest :=
              List.IsPrefix.isInfix ⟨rest.drop 8, by simp⟩
            have hfault : HiddenFault ('\\' :: 'U' :: rest) _ := .escape _ code hin hlen hcode hbig
            by_cases hhuge : code ≥ Nat.pow 2 31
            · rw [if_pos hhuge] at hfault ⊢
              exact .inr hfault
            · rw [if_neg hhuge] at hfault ⊢
              rw [if_pos hbig]
              exact .inr hfault
          · have hhuge : ¬ code ≥ Nat.pow 2 31 := by
              simp only [Nat.pow_eq, Nat.reducePow]
              omega
            rw [if_neg hhuge, if_neg hbig]
            split <;> exact hskip
    · split
      · next b next h =>
        refine Scans.mono ?_ (hreach.trans (Cursor.reaches_of_lineBreak? h))
        exact scans_breaksAt next
      · exact scans_malformed

theorem scans_word (double : Bool) (fuel : Nat) : ∀ c, Scans c Scanned.after (word double fuel c) := by
  induction fuel with
  | zero => exact fun c => Reaches.refl c
  | succ fuel ih =>
    intro c
    have hkeep : ∀ (text : List Char) (next : Cursor), Scans next Scanned.after (do
        let rest ← word double fuel next
        pure (Scanned.mk (text ++ rest.text) rest.after)) := fun text next =>
      (ih next).bind fun rest => scans_pure (Reaches.refl _)
    have hnext := Cursor.reaches_next c
    rw [word]
    split
    · exact Reaches.refl c
    · next x more hrest =>
      split
      · split
        · exact (hkeep _ _).mono hnext
        · split
          · exact (hkeep _ _).mono (Cursor.reaches_skip 2 c)
          · exact Reaches.refl c
      · split
        · split
          · exact Reaches.refl c
          · exact (hkeep _ _).mono hnext
        · split
          · next hx =>
            have hpeek : c.peek = some '\\' := by
              rw [Cursor.peek, hrest, List.head?_cons, beq_iff_eq.mp hx]
            split
            · exact (scans_escape hpeek).bind fun e => hkeep _ _
            · exact (hkeep _ _).mono hnext
          · split
            · exact Reaches.refl c
            · exact (hkeep _ _).mono hnext

theorem scans_gap (c : Cursor) : Scans c Scanned.after (gap c) := by
  have hskip := Cursor.reaches_skip (c.rest.takeWhile (fun x => x == ' ' || x == '\t')).length c
  unfold gap
  dsimp only
  split
  · exact scans_malformed
  · next first next h _ =>
    refine Scans.mono ?_ (hskip.trans (Cursor.reaches_of_lineBreak? h))
    exact (scans_breaksAt next).bind fun more => scans_pure (Reaches.refl _)
  · exact hskip

theorem scans_words (double : Bool) (fuel : Nat) : ∀ c, Scans c Scanned.after (words double fuel c) := by
  induction fuel with
  | zero => exact fun c => scans_malformed
  | succ fuel ih =>
    intro c
    rw [words]
    refine (scans_word double _ c).bind fun w => ?_
    by_cases hquote : (w.after.peek == some (if double then '"' else '\'')) = true
    · rw [if_pos hquote]
      exact Cursor.reaches_next _
    · rw [if_neg hquote]
      refine (scans_gap w.after).bind fun g => ?_
      exact (ih g.after).bind fun rest => scans_pure (Reaches.refl _)

end QuotedText

theorem scans_scanQuoted (double : Bool) (c : Cursor) : Scans c Scanned.after (scanQuoted double c) :=
  (QuotedText.scans_words double _ c.next).mono (Cursor.reaches_next c)

namespace PlainText

theorem reaches_gapEnd (fuel : Nat) : ∀ c, Reaches c (gapEnd fuel c).after := by
  induction fuel with
  | zero => exact Reaches.refl
  | succ fuel ih =>
    intro c
    rw [gapEnd]
    split
    · exact (Cursor.reaches_next c).trans (ih _)
    · split
      · exact Reaches.refl c
      · next b next h =>
        have hnext := Cursor.reaches_of_lineBreak? h
        split
        · exact hnext
        · exact hnext.trans (ih next)

theorem reaches_gap (c : Cursor) : Reaches c (gap c).after := by
  have hskip := Cursor.reaches_skip (c.rest.takeWhile (· == ' ')).length c
  unfold gap
  dsimp only
  split
  · exact hskip
  · next first next h =>
    have hnext := hskip.trans (Cursor.reaches_of_lineBreak? h)
    split
    · exact hnext
    · split <;> exact hnext.trans (reaches_gapEnd _ next)

end PlainText

theorem reaches_scanWords (inFlow : Bool) (indent : Int) (fuel : Nat) :
    ∀ gap keyAllowed c, Reaches c (scanWords inFlow indent fuel gap keyAllowed c).after := by
  induction fuel with
  | zero => exact fun _ _ c => Reaches.refl c
  | succ fuel ih =>
    intro gap keyAllowed c
    rw [scanWords]
    split
    · exact Reaches.refl c
    · dsimp only
      split
      · exact Reaches.refl c
      · have hnext := (Cursor.reaches_skip (PlainText.word inFlow c.rest).length c).trans (PlainText.reaches_gap _)
        split
        · exact hnext
        · exact hnext.trans (ih _ _ _)

theorem reaches_scanPlain (inFlow : Bool) (indent : Int) (c : Cursor) : Reaches c (scanPlain inFlow indent c).after :=
  reaches_scanWords inFlow indent _ _ _ c

namespace BlockText

theorem scans_increment? (c : Cursor) : Scans c (fun _ => c) (increment? c.peek) := by
  unfold increment?
  split
  · split
    · exact scans_malformed
    · split <;> exact Reaches.refl c
  · exact Reaches.refl c

theorem scans_header (c : Cursor) : Scans c Header.after (header c) := by
  have hnext := Cursor.reaches_next c
  have hend : ∀ h : Header, Scans h.after Header.after (if endsWord h.after.peek then
      let c := h.after.skipSpaces.skipComment
      if endsLine c.peek then pure { h with after := c.skipBreak } else .error .malformed
    else .error .malformed) := by
    intro h
    split
    · dsimp only
      split
      · exact ((Cursor.reaches_skipSpaces h.after).trans (Cursor.reaches_skipComment _)).trans
          (Cursor.reaches_skipBreak _)
      · exact scans_malformed
    · exact scans_malformed
  unfold header
  dsimp only
  split
  · refine Scans.mono ?_ hnext
    refine (scans_increment? c.next).bind fun n => ?_
    split
    · exact (hend _).mono (Cursor.reaches_next _)
    · exact hend _
  · refine (scans_increment? c).bind fun n => ?_
    split
    · exact hend _
    · split
      · exact (hend _).mono (hnext.trans (Cursor.reaches_next _))
      · exact (hend _).mono hnext

theorem reaches_lead (fuel : Nat) : ∀ column c, Reaches c (lead fuel column c).after := by
  induction fuel with
  | zero => exact fun _ c => Reaches.refl c
  | succ fuel ih =>
    intro column c
    rw [lead]
    split
    · exact (Cursor.reaches_next c).trans (ih _ _)
    · split
      · exact Reaches.refl c
      · next b next h => exact (Cursor.reaches_of_lineBreak? h).trans (ih _ next)

theorem reaches_breaks (indent fuel : Nat) : ∀ c, Reaches c (breaks indent fuel c).after := by
  induction fuel with
  | zero => exact Reaches.refl
  | succ fuel ih =>
    intro c
    have hskip : Reaches c (skipIndent indent c) := Cursor.reaches_skip _ c
    rw [breaks]
    dsimp only
    split
    · exact hskip
    · next b next h => exact hskip.trans ((Cursor.reaches_of_lineBreak? h).trans (ih next))

theorem reaches_lines (folded : Bool) (indent fuel : Nat) : ∀ c, Reaches c (lines folded indent fuel c).after := by
  induction fuel with
  | zero => exact Reaches.refl
  | succ fuel ih =>
    intro c
    have hline := Cursor.reaches_skip (c.rest.takeWhile (!isBreak ·)).length c
    have hbreaks : ∀ d, Reaches d (breaksAt indent d).after := fun d => reaches_breaks indent _ d
    have hgap := (hline.trans (Cursor.reaches_skipBreak _)).trans (hbreaks _)
    rw [lines]
    dsimp only
    split
    · exact hgap.trans (ih _)
    · exact hgap

end BlockText

theorem scans_scanBlock (folded : Bool) (context : Int) (c : Cursor) :
    Scans c Scanned.after (scanBlock folded context c) := by
  unfold scanBlock
  refine Scans.mono ?_ (Cursor.reaches_next c)
  refine (BlockText.scans_header c.next).bind fun h => ?_
  have hbody : ∀ (indent : Nat) (first : Scanned), Reaches h.after first.after →
      Reaches h.after (if BlockText.continues indent first.after then
        let ls := BlockText.lines folded indent (first.after.rest.length + 1) first.after
        { ls with text := first.text ++ ls.text }
      else ⟨[], [], first.text, first.after⟩ : BlockText.Lines).after := by
    intro indent first hfirst
    split
    · exact hfirst.trans (BlockText.reaches_lines _ _ _ _)
    · exact hfirst
  split
  · exact hbody _ _ (BlockText.reaches_breaks _ _ _)
  · exact hbody _ _ (BlockText.reaches_lead _ _ _)

end TopologyConfig.Yaml
