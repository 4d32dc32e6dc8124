import TopologyConfig.Proofs.Json.Text
import TopologyConfig.Proofs.Value.Plain
import TopologyConfig.Text.Newline

/-!
A JSON text is a line without control characters, whatever value it is the text of. So its line ends are unified
already, and a file gives the text back as it was written.
-/
namespace TopologyConfig

namespace Text

theorem unifyNewlines_of_not_mem {cs : List Char} (h : '\r' ∉ cs) : unifyNewlines cs = cs := by
  induction cs with
  | nil => rfl
  | cons c cs ih =>
    obtain ⟨hc, hcs⟩ := not_or.mp (mt List.mem_cons.mpr h)
    rw [unifyNewlines.eq_4 c cs (fun _ he _ => hc he.symm) fun he => hc he.symm, ih hcs]

end Text

namespace Json

open Binary64 (DecimalText)
open Numeral (AreDigits)

/-- No character is a control character. -/
def IsLine (cs : List Char) : Prop := ∀ c ∈ cs, 32 ≤ c.toNat

section

variable {c : Char} {cs ds : List Char}

theorem isLine_of_all (h : cs.all (fun c => 32 ≤ c.toNat) = true) : IsLine cs :=
  fun c hc => by simpa using List.all_eq_true.mp h c hc

theorem isLine_nil : IsLine [] := fun _ h => absurd h List.not_mem_nil

theorem isLine_cons : IsLine (c :: cs) ↔ 32 ≤ c.toNat ∧ IsLine cs := List.forall_mem_cons

theorem isLine_append : IsLine (cs ++ ds) ↔ IsLine cs ∧ IsLine ds := List.forall_mem_append

theorem isLine_of_areDigits (h : AreDigits cs) : IsLine cs := by
  intro c hc
  have hdigit := h c hc
  simp only [Char.isDigit, Bool.and_eq_true, decide_eq_true_eq] at hdigit
  have hzero : ('0' : Char).toNat ≤ c.toNat := hdigit.1
  have : ('0' : Char).toNat = 48 := rfl
  omega

theorem isLine_hex : ∀ n < 32, IsLine (Text.hex 4 n) := by
  have hall : ∀ n < 32, (Text.hex 4 n).all (fun c => 32 ≤ c.toNat) = true := by decide
  exact fun n hn => isLine_of_all (hall n hn)

theorem isLine_escapeChar (c : Char) : IsLine (escapeChar c) := by
  have hletter {d : Char} (hd : 32 ≤ d.toNat) : IsLine ['\\', d] :=
    isLine_cons.mpr ⟨by decide, isLine_cons.mpr ⟨hd, isLine_nil⟩⟩
  unfold escapeChar
  split
  iterate 7 exact hletter (by decide)
  split
  · next hc => exact isLine_cons.mpr ⟨by decide, isLine_cons.mpr ⟨by decide, isLine_hex _ hc⟩⟩
  · next hc => exact isLine_cons.mpr ⟨Nat.le_of_not_lt hc, isLine_nil⟩

theorem isLine_stringText (s : String) : IsLine (stringText s) := by
  refine isLine_cons.mpr ⟨by decide, isLine_append.mpr ⟨fun c hc => ?_, isLine_cons.mpr ⟨by decide, isLine_nil⟩⟩⟩
  obtain ⟨d, -, hd⟩ := List.mem_flatMap.mp hc
  exact isLine_escapeChar d c hd

theorem isLine_chars (negative : Bool) (t : DecimalText) : IsLine ((if negative then ['-'] else []) ++ t.chars) := by
  have hsign : IsLine (if negative then ['-'] else []) := by
    cases negative
    · exact isLine_nil
    · exact isLine_cons.mpr ⟨by decide, isLine_nil⟩
  have hpoint : IsLine t.pointChars := by
    unfold DecimalText.pointChars
    split
    · exact isLine_nil
    · exact isLine_cons.mpr ⟨by decide, isLine_of_areDigits t.digits_decimals⟩
  have hexponent : IsLine t.exponentChars := by
    unfold DecimalText.exponentChars
    split
    · exact isLine_nil
    · next negative ds he =>
      refine isLine_cons.mpr ⟨by decide, isLine_cons.mpr ⟨?_, isLine_of_areDigits (t.digits_exponent _ he).1⟩⟩
      cases negative <;> decide
  exact isLine_append.mpr ⟨hsign, isLine_append.mpr
    ⟨isLine_append.mpr ⟨isLine_of_areDigits t.digits_whole, hpoint⟩, hexponent⟩⟩

theorem isLine_floatText (x : Binary64) : IsLine (floatText x) := by
  by_cases hspecial : x.isNaN = true ∨ x.isInfinite = true
  · have hnames : floatText x ∈ ["NaN".toList, "Infinity".toList, "-Infinity".toList] := by
      simp only [floatText, Binary64.textWith, specialNames]
      split
      · simp
      · rw [if_pos (hspecial.resolve_left (by assumption))]
        split <;> simp
    have hlines : ∀ cs ∈ ["NaN".toList, "Infinity".toList, "-Infinity".toList], IsLine cs := by
      simp only [List.forall_mem_cons]
      exact ⟨isLine_of_all rfl, isLine_of_all rfl, isLine_of_all rfl, List.forall_mem_nil _⟩
    exact hlines _ hnames
  · obtain ⟨hnan, hinf⟩ := not_or.mp hspecial
    obtain ⟨t, htext, -⟩ := floatText_of_isFinite (Binary64.isFinite_of_not_special hnan hinf)
    rw [htext]
    exact isLine_chars _ t

theorem isLine_intText {n : Int} (h : intText n = .ok cs) : IsLine cs := by
  unfold intText at h
  split at h
  · next s hs =>
    cases h
    unfold Numeral.write at hs
    split at hs
    · cases hs
      rw [toList_toString]
      exact isLine_chars _ _
    · cases hs
  · cases h

theorem isLine_quoted (h : IsLine cs) : IsLine ('"' :: cs ++ ['"']) :=
  isLine_append.mpr ⟨isLine_cons.mpr ⟨by decide, h⟩, isLine_cons.mpr ⟨by decide, isLine_nil⟩⟩

theorem isLine_keyText {k : Value} (h : keyText k = .ok cs) : IsLine cs := by
  cases k with
  | str s =>
    cases h
    exact isLine_stringText s
  | null =>
    cases h
    exact isLine_of_all rfl
  | bool b =>
    cases h
    cases b <;> exact isLine_of_all rfl
  | int n =>
    rw [keyText] at h
    obtain ⟨ds, hds, rfl⟩ := map_eq_ok.mp h
    exact isLine_quoted (isLine_intText hds)
  | float x =>
    cases h
    exact isLine_quoted (isLine_floatText x)
  | _ => cases h

end

section

variable {cs : List Char} {vs : List Value} {es : Entries}

theorem isLine_moreItems (h : ∀ v ∈ vs, ∀ cs, valueText v = .ok cs → IsLine cs) (hcs : moreItems vs = .ok cs) :
    IsLine cs := by
  induction vs generalizing cs with
  | nil =>
    cases hcs
    exact isLine_cons.mpr ⟨by decide, isLine_nil⟩
  | cons v vs ih =>
    obtain ⟨hv, hvs⟩ := List.forall_mem_cons.mp h
    obtain ⟨first, hfirst, hcs⟩ := bind_eq_ok.mp hcs
    obtain ⟨rest, hrest, hcs⟩ := bind_eq_ok.mp hcs
    cases hcs
    exact isLine_cons.mpr ⟨by decide, isLine_cons.mpr ⟨by decide, isLine_append.mpr ⟨hv _ hfirst, ih hvs hrest⟩⟩⟩

theorem isLine_itemsIn (h : ∀ v ∈ vs, ∀ cs, valueText v = .ok cs → IsLine cs) (hcs : itemsIn vs = .ok cs) :
    IsLine cs := by
  cases vs with
  | nil =>
    cases hcs
    exact isLine_of_all rfl
  | cons v vs =>
    obtain ⟨hv, hvs⟩ := List.forall_mem_cons.mp h
    obtain ⟨first, hfirst, hcs⟩ := bind_eq_ok.mp hcs
    obtain ⟨rest, hrest, hcs⟩ := bind_eq_ok.mp hcs
    cases hcs
    exact isLine_cons.mpr ⟨by decide, isLine_append.mpr ⟨hv _ hfirst, isLine_moreItems hvs hrest⟩⟩

theorem isLine_member {key first rest : List Char} (hkey : IsLine key) (hfirst : IsLine first) (hrest : IsLine rest) :
    IsLine (key ++ ':' :: ' ' :: first ++ rest) :=
  isLine_append.mpr ⟨isLine_append.mpr ⟨hkey, isLine_cons.mpr ⟨by decide, isLine_cons.mpr ⟨by decide, hfirst⟩⟩⟩, hrest⟩

theorem isLine_moreMembers (h : ∀ e ∈ es, ∀ cs, valueText e.2 = .ok cs → IsLine cs) (hcs : moreMembers es = .ok cs) :
    IsLine cs := by
  induction es generalizing cs with
  | nil =>
    cases hcs
    exact isLine_cons.mpr ⟨by decide, isLine_nil⟩
  | cons e es ih =>
    obtain ⟨hv, hvs⟩ := List.forall_mem_cons.mp h
    obtain ⟨key, hkey, hcs⟩ := bind_eq_ok.mp hcs
    obtain ⟨first, hfirst, hcs⟩ := bind_eq_ok.mp hcs
    obtain ⟨rest, hrest, hcs⟩ := bind_eq_ok.mp hcs
    cases hcs
    exact isLine_cons.mpr ⟨by decide, isLine_cons.mpr ⟨by decide,
      isLine_member (isLine_keyText hkey) (hv _ hfirst) (ih hvs hrest)⟩⟩

theorem isLine_membersIn (h : ∀ e ∈ es, ∀ cs, valueText e.2 = .ok cs → IsLine cs) (hcs : membersIn es = .ok cs) :
    IsLine cs := by
  cases es with
  | nil =>
    cases hcs
    exact isLine_of_all rfl
  | cons e es =>
    obtain ⟨hv, hvs⟩ := List.forall_mem_cons.mp h
    obtain ⟨key, hkey, hcs⟩ := bind_eq_ok.mp hcs
    obtain ⟨first, hfirst, hcs⟩ := bind_eq_ok.mp hcs
    obtain ⟨rest, hrest, hcs⟩ := bind_eq_ok.mp hcs
    cases hcs
    exact isLine_cons.mpr ⟨by decide,
      isLine_member (isLine_keyText hkey) (hv _ hfirst) (isLine_moreMembers hvs hrest)⟩

/-- The text of any value is a line. -/
theorem isLine_valueText {v : Value} (h : valueText v = .ok cs) : IsLine cs := by
  induction v using Value.induction generalizing cs with
  | leaf v hl =>
    cases v with
    | int n => exact isLine_intText h
    | null =>
      cases h
      exact isLine_of_all rfl
    | bool b =>
      cases h
      cases b <;> exact isLine_of_all rfl
    | float x =>
      cases h
      exact isLine_floatText x
    | str s =>
      cases h
      exact isLine_stringText s
    | list | frozenList | tuple | set | map | frozenMap | view | config | labelled => cases hl
    | _ => cases h
  | list vs ih => exact isLine_itemsIn (fun v hv _ => ih v hv) h
  | frozenList vs ih => exact isLine_itemsIn (fun v hv _ => ih v hv) h
  | tuple vs ih => exact isLine_itemsIn (fun v hv _ => ih v hv) h
  | map es ih => exact isLine_membersIn (fun e he _ => ih e he) h
  | frozenMap es ih => exact isLine_membersIn (fun e he _ => ih e he) h
  | labelled l v ih => exact ih h
  | _ => cases h

end

/-- A text that was written has its line ends already. -/
theorem withUnifiedNewlines_of_write {v : Value} {text : String} (h : write v = .ok text) :
    Text.withUnifiedNewlines text = text := by
  obtain ⟨cs, hcs, rfl⟩ := map_eq_ok.mp h
  have hreturn : '\r' ∉ cs := fun hmem => absurd (isLine_valueText hcs _ hmem) (by decide)
  rw [Text.withUnifiedNewlines, String.toList_ofList, Text.unifyNewlines_of_not_mem hreturn]

end Json
end TopologyConfig
