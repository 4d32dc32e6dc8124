import TopologyConfig.Yaml.Cursor
import TopologyConfig.Yaml.Fault

/-!
The text of scalars: plain ones, those in single or double quotes, and blocks of lines. A single line
break between words counts as a space; further ones stand for themselves.
-/
namespace TopologyConfig.Yaml

structure Scanned where
  text : List Char
  after : Cursor

def foldBreaks (first : Char) (more : List Char) : List Char :=
  if first != '\n' then first :: more
  else if more.isEmpty then [' ']
  else more

namespace PlainText

def stops (inFlow : Bool) (x : Char) (following : Option Char) : Bool :=
  isSeparator (some x) ||
    (x == ':' && (isSeparator following || (inFlow && following.any (",[]\x7b\x7d".toList.contains ·)))) ||
    (inFlow && ",?[]\x7b\x7d".toList.contains x)

def word (inFlow : Bool) : List Char → List Char
  | [] => []
  | x :: rest => if stops inFlow x rest.head? then [] else x :: word inFlow rest

structure GapEnd where
  breaks : List Char
  after : Cursor
  atMark : Bool

def gapEnd : Nat → Cursor → GapEnd
  | 0, c => ⟨[], c, false⟩
  | fuel + 1, c =>
    if c.peek == some ' ' then gapEnd fuel c.next
    else
      match c.lineBreak? with
      | none => ⟨[], c, false⟩
      | some (b, next) =>
        if next.atDocumentMark then ⟨[], next, true⟩
        else
          let rest := gapEnd fuel next
          { rest with breaks := b :: rest.breaks }

structure Gap where
  text : List Char
  after : Cursor
  broken : Bool

def gap (c : Cursor) : Gap :=
  let spaces := c.rest.takeWhile (· == ' ')
  let c := c.skip spaces.length
  match c.lineBreak? with
  | none => ⟨spaces, c, false⟩
  | some (first, next) =>
    if next.atDocumentMark then ⟨[], next, true⟩
    else
      let rest := gapEnd (next.rest.length + 1) next
      if rest.atMark then ⟨[], rest.after, true⟩
      else ⟨foldBreaks first rest.breaks, rest.after, true⟩

end PlainText

/-- A plain scalar, and whether a simple key may follow it. -/
structure ScannedPlain where
  text : List Char
  after : Cursor
  keyAllowed : Bool

/-- Reads words and the gaps between them. In the block context every line but the first is indented. -/
def scanWords (inFlow : Bool) (indent : Int) : Nat → List Char → Bool → Cursor → ScannedPlain
  | 0, _, keyAllowed, c => ⟨[], c, keyAllowed⟩
  | fuel + 1, gap, keyAllowed, c =>
    if c.peek == some '#' then ⟨[], c, keyAllowed⟩
    else
      let word := PlainText.word inFlow c.rest
      if word.isEmpty then ⟨[], c, keyAllowed⟩
      else
        let next := PlainText.gap (c.skip word.length)
        let after := next.after
        if next.text.isEmpty || after.peek == some '#' || (!inFlow && Int.ofNat after.column < indent) then
          ⟨gap ++ word, after, next.broken⟩
        else
          let rest := scanWords inFlow indent fuel next.text next.broken after
          ⟨gap ++ word ++ rest.text, rest.after, rest.keyAllowed⟩

def scanPlain (inFlow : Bool) (indent : Int) (c : Cursor) : ScannedPlain :=
  scanWords inFlow indent (c.rest.length + 1) [] false c

def hexDigit? (c : Char) : Option Nat :=
  if c.isDigit then some (c.toNat - 48)
  else if 'a' ≤ c && c ≤ 'f' then some (c.toNat - 87)
  else if 'A' ≤ c && c ≤ 'F' then some (c.toNat - 55)
  else none

def hexNumber? (cs : List Char) : Option Nat :=
  cs.foldlM (fun n c => (hexDigit? c).map (n * 16 + ·)) 0

namespace QuotedText

def letterEscapes : List (Char × Char) := [
  ('0', '\x00'), ('a', '\x07'), ('b', '\x08'), ('t', '\t'), ('\t', '\t'), ('n', '\n'), ('v', '\x0b'),
  ('f', '\x0c'), ('r', '\r'), ('e', '\x1b'), (' ', ' '), ('"', '"'), ('\\', '\\'), ('/', '/'),
  ('N', '\x85'), ('_', '\xa0'), ('L', '\u2028'), ('P', '\u2029')]

def numericLength? : Char → Option Nat
  | 'x' => some 2
  | 'u' => some 4
  | 'U' => some 8
  | _ => none

/-- The character with a number. Half of a surrogate pair is none, and U+FFFD stands in its place; texts that spell one
are not read exactly. -/
def charOfNumber (n : Nat) : Except Fault Char :=
  if n ≥ Nat.pow 2 31 then .error .codePointSize
  else if n > 0x10FFFF then .error .codePoint
  else if 0xD800 ≤ n && n < 0xE000 then .ok (Char.ofNat 0xFFFD)
  else .ok (Char.ofNat n)

def breaks : Nat → Cursor → Except Fault Scanned
  | 0, c => .ok ⟨[], c⟩
  | fuel + 1, c =>
    if c.atDocumentMark then .error .malformed
    else
      let c := c.skipWhile (fun x => x == ' ' || x == '\t')
      match c.lineBreak? with
      | none => .ok ⟨[], c⟩
      | some (b, next) => do
        let rest ← breaks fuel next
        pure ⟨b :: rest.text, rest.after⟩

def breaksAt (c : Cursor) : Except Fault Scanned := breaks (c.rest.length + 1) c

def escape (c : Cursor) : Except Fault Scanned :=
  let c := c.next
  match c.rest with
  | [] => .error .malformed
  | x :: rest =>
    match letterEscapes.lookup x, numericLength? x with
    | some y, _ => .ok ⟨[y], c.next⟩
    | none, some n =>
      let digits := rest.take n
      match hexNumber? digits with
      | none => .error .malformed
      | some code =>
        if digits.length < n then .error .malformed
        else do
          let y ← charOfNumber code
          pure ⟨[y], c.skip (n + 1)⟩
    | none, none =>
      match c.lineBreak? with
      | some (_, next) => breaksAt next
      | none => .error .malformed

def word (double : Bool) : Nat → Cursor → Except Fault Scanned
  | 0, c => .ok ⟨[], c⟩
  | fuel + 1, c =>
    let keep (text : List Char) (next : Cursor) : Except Fault Scanned := do
      let rest ← word double fuel next
      pure ⟨text ++ rest.text, rest.after⟩
    match c.rest with
    | [] => .ok ⟨[], c⟩
    | x :: more =>
      if x == '\'' then
        if double then keep [x] c.next
        else if more.head? == some '\'' then keep [x] (c.skip 2)
        else .ok ⟨[], c⟩
      else if x == '"' then (if double then .ok ⟨[], c⟩ else keep [x] c.next)
      else if x == '\\' then
        if double then do
          let e ← escape c
          keep e.text e.after
        else keep [x] c.next
      else if isSeparator (some x) then .ok ⟨[], c⟩
      else keep [x] c.next

def gap (c : Cursor) : Except Fault Scanned :=
  let blanks := c.rest.takeWhile (fun x => x == ' ' || x == '\t')
  let c := c.skip blanks.length
  match c.rest, c.lineBreak? with
  | [], _ => .error .malformed
  | _, some (first, next) => do
    let more ← breaksAt next
    pure ⟨foldBreaks first more.text, more.after⟩
  | _, none => .ok ⟨blanks, c⟩

def words (double : Bool) : Nat → Cursor → Except Fault Scanned
  | 0, _ => .error .malformed
  | fuel + 1, c => do
    let w ← word double (c.rest.length + 1) c
    if w.after.peek == some (if double then '"' else '\'') then pure ⟨w.text, w.after.next⟩
    else
      let g ← gap w.after
      let rest ← words double fuel g.after
      pure ⟨w.text ++ g.text ++ rest.text, rest.after⟩

end QuotedText

def scanQuoted (double : Bool) (c : Cursor) : Except Fault Scanned :=
  QuotedText.words double (c.rest.length + 1) c.next

namespace BlockText

inductive Chomping where
  | strip
  | clip
  | keep
deriving DecidableEq

structure Header where
  chomping : Chomping
  increment : Option Nat
  after : Cursor

def chomping? : Option Char → Option Chomping
  | some '+' => some .keep
  | some '-' => some .strip
  | _ => none

def increment? (x : Option Char) : Except Fault (Option Nat) :=
  match x with
  | some d =>
    if d == '0' then .error .malformed
    else if d.isDigit then .ok (some (d.toNat - 48))
    else .ok none
  | none => .ok none

def header (c : Cursor) : Except Fault Header := do
  let h ← match chomping? c.peek with
    | some chomping => do
      let c := c.next
      match ← increment? c.peek with
      | some n => pure (Header.mk chomping (some n) c.next)
      | none => pure ⟨chomping, none, c⟩
    | none => do
      match ← increment? c.peek with
      | none => pure ⟨.clip, none, c⟩
      | some n =>
        let c := c.next
        match chomping? c.peek with
        | some chomping => pure ⟨chomping, some n, c.next⟩
        | none => pure ⟨.clip, some n, c⟩
  if endsWord h.after.peek then
    let c := h.after.skipSpaces.skipComment
    if endsLine c.peek then pure { h with after := c.skipBreak } else .error .malformed
  else .error .malformed

structure Lead where
  breaks : List Char
  column : Nat
  after : Cursor

def lead : Nat → Nat → Cursor → Lead
  | 0, column, c => ⟨[], column, c⟩
  | fuel + 1, column, c =>
    if c.peek == some ' ' then lead fuel (max column c.next.column) c.next
    else
      match c.lineBreak? with
      | none => ⟨[], column, c⟩
      | some (b, next) =>
        let rest := lead fuel column next
        { rest with breaks := b :: rest.breaks }

def skipIndent (indent : Nat) (c : Cursor) : Cursor :=
  c.skip ((c.rest.takeWhile (· == ' ')).take (indent - c.column)).length

def breaks (indent : Nat) : Nat → Cursor → Scanned
  | 0, c => ⟨[], c⟩
  | fuel + 1, c =>
    let c := skipIndent indent c
    match c.lineBreak? with
    | none => ⟨[], c⟩
    | some (b, next) =>
      let rest := breaks indent fuel next
      ⟨b :: rest.text, rest.after⟩

def breaksAt (indent : Nat) (c : Cursor) : Scanned := breaks indent (c.rest.length + 1) c

structure Lines where
  text : List Char
  lastBreak : List Char
  trailing : List Char
  after : Cursor

def continues (indent : Nat) (c : Cursor) : Bool := c.column == indent && c.peek.isSome

def startsBlank (c : Cursor) : Bool := c.peek == some ' ' || c.peek == some '\t'

/-- Reads lines, the first of which begins here. A folded block joins two lines that begin with ink. -/
def lines (folded : Bool) (indent : Nat) : Nat → Cursor → Lines
  | 0, c => ⟨[], [], [], c⟩
  | fuel + 1, c =>
    let line := c.rest.takeWhile (!isBreak ·)
    let afterLine := c.skip line.length
    let lastBreak := (afterLine.lineBreak?.map (fun b => [b.1])).getD []
    let gap := breaksAt indent afterLine.skipBreak
    if continues indent gap.after then
      let joint :=
        if folded && lastBreak == ['\n'] && !startsBlank c && !startsBlank gap.after then
          (if gap.text.isEmpty then [' '] else [])
        else lastBreak
      let rest := lines folded indent fuel gap.after
      { rest with text := line ++ joint ++ gap.text ++ rest.text }
    else ⟨line, lastBreak, gap.text, gap.after⟩

end BlockText

def scanBlock (folded : Bool) (context : Int) (c : Cursor) : Except Fault Scanned := do
  let h ← BlockText.header c.next
  let least := (max (context + 1) 1).toNat
  let (indent, first) := match h.increment with
    | some n => (least + n - 1, BlockText.breaksAt (least + n - 1) h.after)
    | none =>
      let l := BlockText.lead (h.after.rest.length + 1) 0 h.after
      (max least l.column, ⟨l.breaks, l.after⟩)
  let body :=
    if BlockText.continues indent first.after then
      let ls := BlockText.lines folded indent (first.after.rest.length + 1) first.after
      { ls with text := first.text ++ ls.text }
    else ⟨[], [], first.text, first.after⟩
  let tail := match h.chomping with
    | .strip => []
    | .clip => body.lastBreak
    | .keep => body.lastBreak ++ body.trailing
  pure ⟨body.text ++ tail, body.after⟩

end TopologyConfig.Yaml
