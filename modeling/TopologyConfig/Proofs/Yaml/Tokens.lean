import TopologyConfig.Proofs.Yaml.Scan

/-!
What stops the tokens of a YAML text. A fault that is no matter of form is a hidden one of the text.
-/
namespace TopologyConfig.Yaml

open Cursor (Reaches)

section

variable {α β : Type} {c d : Cursor} {after : α → Cursor} {r : Except Fault α}

theorem Scans.map (h : Scans c after r) {f : α → β} {after' : β → Cursor} (hf : ∀ a, after' (f a) = after a) :
    Scans c after' (r.map f) := by
  cases r with
  | ok a =>
    have hafter : Reaches c (after a) := h
    rw [← hf a] at hafter
    exact hafter
  | error f => exact h

theorem scans_ite {p : Prop} [Decidable p] {r' : Except Fault α} (h : Scans c after r) (h' : Scans c after r') :
    Scans c after (if p then r else r') := by
  split
  · exact h
  · exact h'

end

namespace Token

theorem scans_name (c : Cursor) : Scans c Prod.snd (name c) := by
  unfold name
  dsimp only
  split
  · exact scans_malformed
  · exact Cursor.reaches_skip _ c

theorem scans_anchorName (c : Cursor) : Scans c Prod.snd (anchorName c) := by
  unfold anchorName
  refine ((scans_name c.next).mono (Cursor.reaches_next c)).bind fun p => ?_
  dsimp only
  split
  · exact Reaches.refl _
  · exact scans_malformed

theorem scans_uriEscapes (fuel : Nat) : ∀ c, Scans c Prod.snd (uriEscapes fuel c) := by
  induction fuel with
  | zero => exact fun c => Reaches.refl c
  | succ fuel ih =>
    intro c
    rw [uriEscapes]
    split
    · split
      · exact scans_malformed
      · refine Scans.mono ?_ (Cursor.reaches_skip 3 c)
        exact (ih _).bind fun p => scans_pure (Reaches.refl _)
    · exact scans_malformed
    · exact Reaches.refl c

theorem scans_uriChars (fuel : Nat) : ∀ c, Scans c Prod.snd (uriChars fuel c) := by
  induction fuel with
  | zero => exact fun c => Reaches.refl c
  | succ fuel ih =>
    intro c
    rw [uriChars]
    split
    · exact Reaches.refl c
    · refine (scans_uriEscapes _ c).bind fun p => ?_
      dsimp only
      split
      · exact scans_malformed
      · exact (ih _).bind fun q => scans_pure (Reaches.refl _)
    · split
      · refine Scans.mono ?_ (Cursor.reaches_next c)
        exact (ih _).bind fun p => scans_pure (Reaches.refl _)
      · exact Reaches.refl c

theorem scans_uri (c : Cursor) : Scans c Prod.snd (uri c) := by
  unfold uri
  refine (scans_uriChars _ c).bind fun p => ?_
  dsimp only
  split
  · exact scans_malformed
  · exact Reaches.refl _

theorem scans_handle (c : Cursor) : Scans c Prod.snd (handle c) := by
  unfold handle
  split
  · exact scans_malformed
  · split
    · exact Cursor.reaches_next c
    · dsimp only
      split
      · exact Cursor.reaches_skip _ c
      · exact scans_malformed

theorem scans_scanTag (c : Cursor) : Scans c Prod.snd (scanTag c) := by
  have hend : ∀ p : Token × Cursor, Scans p.2 Prod.snd
      (if endsWord p.2.peek then pure p else .error .malformed) := by
    intro p
    split
    · exact Reaches.refl _
    · exact scans_malformed
  unfold scanTag
  split
  · refine ((scans_uri _).mono (Cursor.reaches_skip 2 c)).bind fun p => ?_
    dsimp only
    split
    · exact (hend (_, _)).mono (Cursor.reaches_next _)
    · exact scans_malformed
  · split
    · exact (hend (_, _)).mono (Cursor.reaches_next c)
    · split
      · refine (scans_handle c).bind fun p => ?_
        exact (scans_uri p.2).bind fun q => hend (_, _)
      · exact ((scans_uri _).mono (Cursor.reaches_next c)).bind fun p => hend (_, _)

theorem scans_versionNumber (c : Cursor) : Scans c Prod.snd (versionNumber c) := by
  have hdigits : Numeral.AreDigits (c.rest.takeWhile Char.isDigit) := fun x hx => List.mem_takeWhile_imp hx
  have hin : c.rest.takeWhile Char.isDigit <:+: c.rest := (List.takeWhile_prefix _).isInfix
  unfold versionNumber
  dsimp only
  split
  · exact scans_malformed
  · next hne =>
    have hread := Numeral.read_ten_of_areDigits false hdigits (by simpa using hne)
    have hplain : (if false = true then ['-'] else []) ++ c.rest.takeWhile Char.isDigit =
        c.rest.takeWhile Char.isDigit := rfl
    rw [hplain] at hread
    rw [hread]
    by_cases hlong : (c.rest.takeWhile Char.isDigit).length > maxDigits
    · rw [if_pos hlong]
      exact .inr (.version _ hin hdigits hlong)
    · rw [if_neg hlong]
      exact Cursor.reaches_skip _ c

theorem scans_scanVersion (c : Cursor) : Scans c Prod.snd (scanVersion c) := by
  unfold scanVersion
  refine ((scans_versionNumber _).mono (Cursor.reaches_skipSpaces c)).bind fun p => ?_
  dsimp only
  split
  · exact scans_malformed
  · refine ((scans_versionNumber _).mono (Cursor.reaches_next p.2)).bind fun q => ?_
    split
    · exact Reaches.refl _
    · exact scans_malformed

theorem scans_scanTagHandle (c : Cursor) : Scans c Prod.snd (scanTagHandle c) := by
  unfold scanTagHandle
  refine ((scans_handle _).mono (Cursor.reaches_skipSpaces c)).bind fun p => ?_
  dsimp only
  split
  · exact scans_malformed
  · refine ((scans_uri _).mono (Cursor.reaches_skipSpaces p.2)).bind fun q => ?_
    split
    · exact Reaches.refl _
    · exact scans_malformed

theorem scans_scanDirective (c : Cursor) : Scans c Prod.snd (scanDirective c) := by
  have hend : ∀ p : Token × Cursor, Scans p.2 Prod.snd
      (let c := p.2.skipSpaces.skipComment
       if endsLine c.peek then pure (p.1, c.skipBreak) else .error .malformed) := by
    intro p
    dsimp only
    split
    · exact ((Cursor.reaches_skipSpaces p.2).trans (Cursor.reaches_skipComment _)).trans (Cursor.reaches_skipBreak _)
    · exact scans_malformed
  unfold scanDirective
  refine ((scans_name _).mono (Cursor.reaches_next c)).bind fun p => ?_
  dsimp only
  split
  · split
    · exact (scans_scanVersion p.2).bind hend
    · split
      · exact (scans_scanTagHandle p.2).bind hend
      · exact (hend (_, _)).mono (Cursor.reaches_skipWhile _ _)
  · exact scans_malformed

end Token

namespace Lexer

theorem reaches_skipBlank (fuel : Nat) : ∀ l : Lexer, Reaches l.cursor (skipBlank fuel l).cursor := by
  induction fuel with
  | zero => exact fun l => Reaches.refl _
  | succ fuel ih =>
    intro l
    have hskip := (Cursor.reaches_skipSpaces l.cursor).trans (Cursor.reaches_skipComment _)
    rw [skipBlank]
    split
    · exact hskip
    · next b next h => exact (hskip.trans (Cursor.reaches_of_lineBreak? h)).trans (ih _)

theorem reaches_toNextToken (l : Lexer) : Reaches l.cursor l.toNextToken.cursor := by
  unfold toNextToken
  dsimp only
  split
  · exact (Cursor.reaches_next _).trans (reaches_skipBlank _ _)
  · exact reaches_skipBlank _ _

theorem scans_dropStaleKeys (l : Lexer) : Scans l.cursor Lexer.cursor l.dropStaleKeys := by
  unfold dropStaleKeys
  split
  · exact scans_malformed
  · exact Reaches.refl _

theorem scans_dropKey (l : Lexer) : Scans l.cursor Lexer.cursor l.dropKey := by
  unfold dropKey
  split
  · exact scans_malformed
  · exact Reaches.refl _

theorem scans_saveKey (l : Lexer) : Scans l.cursor Lexer.cursor l.saveKey := by
  unfold saveKey
  split
  · exact (scans_dropKey l).bind fun l => scans_pure (Reaches.refl _)
  · exact Reaches.refl _

theorem cursor_unwindFrom (column : Int) (outer : List Int) : ∀ l : Lexer,
    (unwindFrom column outer l).cursor = l.cursor := by
  induction outer with
  | nil => exact fun l => rfl
  | cons n outer ih =>
    intro l
    rw [unwindFrom]
    split
    · exact ih _
    · rfl

theorem cursor_unwind (l : Lexer) (column : Int) : (l.unwind column).cursor = l.cursor := by
  unfold unwind
  split
  · rfl
  · exact cursor_unwindFrom column _ l

theorem cursor_indentTo (l : Lexer) (column : Int) (n : Nat) (t : Token) :
    (l.indentTo column n t).cursor = l.cursor := by
  unfold indentTo
  split <;> rfl

theorem scans_unwind_dropKey (l : Lexer) : Scans l.cursor Lexer.cursor (l.unwind (-1)).dropKey := by
  have h := scans_dropKey (l.unwind (-1))
  rwa [cursor_unwind] at h

theorem scans_fetchStreamEnd (l : Lexer) : Scans l.cursor Lexer.cursor l.fetchStreamEnd :=
  (scans_unwind_dropKey l).bind fun _ => scans_pure (Reaches.refl _)

theorem scans_fetchDirective (l : Lexer) : Scans l.cursor Lexer.cursor l.fetchDirective :=
  (scans_unwind_dropKey l).bind fun l =>
    (Token.scans_scanDirective l.cursor).bind fun _ => scans_pure (Reaches.refl _)

theorem scans_fetchDocumentMark (l : Lexer) (t : Token) : Scans l.cursor Lexer.cursor (l.fetchDocumentMark t) :=
  (scans_unwind_dropKey l).bind fun l => scans_pure (Cursor.reaches_skip 3 l.cursor)

theorem scans_fetchFlowStart (l : Lexer) (t : Token) : Scans l.cursor Lexer.cursor (l.fetchFlowStart t) :=
  (scans_saveKey l).bind fun l => scans_pure (Cursor.reaches_skip 1 l.cursor)

theorem scans_fetchFlowEnd (l : Lexer) (t : Token) : Scans l.cursor Lexer.cursor (l.fetchFlowEnd t) :=
  (scans_dropKey l).bind fun l => scans_pure (Cursor.reaches_skip 1 l.cursor)

theorem scans_fetchFlowEntry (l : Lexer) : Scans l.cursor Lexer.cursor l.fetchFlowEntry :=
  (scans_dropKey l).bind fun l => scans_pure (Cursor.reaches_skip 1 l.cursor)

theorem cursor_openBlock (l : Lexer) (t : Token) : (if l.inFlow then l else l.openBlock t).cursor = l.cursor := by
  split
  · rfl
  · exact cursor_indentTo l _ _ t

theorem scans_openBlock_dropKey (l : Lexer) (t : Token) :
    Scans l.cursor Lexer.cursor (if l.inFlow then l else l.openBlock t).dropKey := by
  have h := scans_dropKey (if l.inFlow then l else l.openBlock t)
  rwa [cursor_openBlock] at h

theorem scans_fetchBlockEntry (l : Lexer) : Scans l.cursor Lexer.cursor l.fetchBlockEntry := by
  unfold fetchBlockEntry
  split
  · exact scans_malformed
  · exact (scans_openBlock_dropKey l _).bind fun l => scans_pure (Cursor.reaches_skip 1 l.cursor)

theorem scans_fetchKey (l : Lexer) : Scans l.cursor Lexer.cursor l.fetchKey := by
  unfold fetchKey
  split
  · exact scans_malformed
  · exact (scans_openBlock_dropKey l _).bind fun l => scans_pure (Cursor.reaches_skip 1 l.cursor)

theorem scans_fetchValue (l : Lexer) : Scans l.cursor Lexer.cursor l.fetchValue := by
  unfold fetchValue
  split
  · dsimp only
    split
    · exact Cursor.reaches_skip 1 l.cursor
    · have h := Cursor.reaches_skip 1 l.cursor
      refine scans_pure ?_
      simpa [take, push, cursor_indentTo] using h
  · split
    · exact scans_malformed
    · exact (scans_openBlock_dropKey l _).bind fun l => scans_pure (Cursor.reaches_skip 1 l.cursor)

theorem scans_fetchNode (l : Lexer) {scan : Cursor → Except Fault (Token × Cursor)}
    (h : ∀ c, Scans c Prod.snd (scan c)) : Scans l.cursor Lexer.cursor (l.fetchNode scan) :=
  (scans_saveKey l).bind fun l => (h l.cursor).bind fun _ => scans_pure (Reaches.refl _)

theorem scans_fetchQuoted (l : Lexer) (double : Bool) : Scans l.cursor Lexer.cursor (l.fetchQuoted double) :=
  scans_fetchNode l fun c => (scans_scanQuoted double c).bind fun _ => scans_pure (Reaches.refl _)

theorem scans_fetchBlock (l : Lexer) (folded : Bool) : Scans l.cursor Lexer.cursor (l.fetchBlock folded) :=
  (scans_dropKey l).bind fun l => (scans_scanBlock folded l.indent l.cursor).bind fun _ => scans_pure (Reaches.refl _)

theorem scans_fetchPlain (l : Lexer) : Scans l.cursor Lexer.cursor l.fetchPlain :=
  (scans_saveKey l).bind fun l => scans_pure (reaches_scanPlain l.inFlow (l.indent + 1) l.cursor)

theorem scans_fetchAt (l : Lexer) (x : Char) : Scans l.cursor Lexer.cursor (l.fetchAt x) := by
  have hname : ∀ (f : String → Token) (c : Cursor),
      Scans c Prod.snd ((Token.anchorName c).map (fun p => (f p.1, p.2))) := fun f c =>
    (Token.scans_anchorName c).map fun _ => rfl
  unfold fetchAt
  dsimp only
  exact scans_ite (scans_fetchDirective l) <| scans_ite (scans_fetchDocumentMark l _) <|
    scans_ite (scans_fetchDocumentMark l _) <| scans_ite (scans_fetchFlowStart l _) <|
    scans_ite (scans_fetchFlowStart l _) <| scans_ite (scans_fetchFlowEnd l _) <|
    scans_ite (scans_fetchFlowEnd l _) <| scans_ite (scans_fetchFlowEntry l) <|
    scans_ite (scans_fetchBlockEntry l) <| scans_ite (scans_fetchKey l) <| scans_ite (scans_fetchValue l) <|
    scans_ite (scans_fetchNode l (hname .alias)) <| scans_ite (scans_fetchNode l (hname .anchor)) <|
    scans_ite (scans_fetchNode l Token.scans_scanTag) <| scans_ite (scans_fetchBlock l false) <|
    scans_ite (scans_fetchBlock l true) <| scans_ite (scans_fetchQuoted l false) <|
    scans_ite (scans_fetchQuoted l true) <| scans_ite (scans_fetchPlain l) scans_malformed

/-- One more token is read from what is left of the text. -/
theorem scans_fetch (l : Lexer) : Scans l.cursor Lexer.cursor l.fetch := by
  unfold fetch
  refine ((scans_dropStaleKeys _).mono (reaches_toNextToken l)).bind fun l => ?_
  dsimp only
  rw [← cursor_unwind l l.column]
  split
  · exact scans_fetchStreamEnd _
  · exact scans_fetchAt _ _

end Lexer

theorem TokenStream.fault_readFrom (fuel : Nat) : ∀ l : Lexer, ∀ f ∈ (readFrom fuel l).fault,
    f = .malformed ∨ HiddenFault l.cursor.rest f := by
  induction fuel with
  | zero =>
    intro l f hf
    cases hf
  | succ fuel ih =>
    intro l f hf
    have hfetch := Lexer.scans_fetch l
    rw [readFrom] at hf
    split at hf
    · cases hf
    · split at hf
      · next next hnext =>
        rw [hnext] at hfetch
        exact (ih next f hf).imp_right fun h => h.of_infix (List.IsSuffix.isInfix hfetch)
      · next g hg =>
        rw [hg] at hfetch
        cases hf
        exact hfetch

/-- A text whose tokens end in a fault of another kind than its form has a hidden fault. -/
theorem TokenStream.fault_ofText {text : List Char} {f : Fault} (h : (ofText text).fault = some f) :
    f = .malformed ∨ HiddenFault text f :=
  fault_readFrom _ { cursor := Cursor.start text } f h

end TopologyConfig.Yaml
