import TopologyConfig.Yaml.Cursor

/-!
The forms in which a text may be written: plain, in single quotes, as a block of lines or, always, in
double quotes.
-/
namespace TopologyConfig.Yaml

structure TextForms where
  isEmpty : Bool
  multiline : Bool
  plain : Bool
  singleQuoted : Bool
  block : Bool

namespace TextForms

def isWrittenBreak (c : Char) : Bool := c == '\n' || c == '\x85' || c == '\u2028' || c == '\u2029'

/-- Only double quotes can hold the character. -/
def isSpecial (c : Char) : Bool :=
  let n := c.toNat
  !(c == '\n' || (0x20 ≤ n && n ≤ 0x7E) || n == 0x85 || (0xA0 ≤ n && n ≤ 0xD7FF) ||
      (0xE000 ≤ n && n ≤ 0xFFFD) || (0x10000 ≤ n && n < 0x10FFFF)) || c == byteOrderMark

def isGap (c : Char) : Bool := c == '\x00' || c == ' ' || c == '\t' || isBreak c

def endsGap : List Char → Bool
  | [] => true
  | c :: _ => isGap c

def leadsBadly : List Char → Bool
  | [] => false
  | c :: rest =>
    "#,[]\x7b\x7d&*!|>'\"%@\x60".toList.contains c ||
      ((c == '?' || c == ':' || c == '-') && endsGap rest)

/-- A colon before white space, or a number sign after it, keeps a text from being plain. -/
def hasIndicator (afterGap : Bool) : List Char → Bool
  | [] => false
  | c :: rest => (c == ':' && endsGap rest) || (c == '#' && afterGap) || hasIndicator (isGap c) rest

def startsLikeMark (cs : List Char) : Bool := cs.take 3 == ['-', '-', '-'] || cs.take 3 == ['.', '.', '.']

def hasBreakSpace : List Char → Bool
  | a :: b :: rest => (isWrittenBreak a && b == ' ') || hasBreakSpace (b :: rest)
  | _ => false

def hasSpaceBreak : List Char → Bool
  | a :: b :: rest => (a == ' ' && isWrittenBreak b) || hasSpaceBreak (b :: rest)
  | _ => false

def isEdge (c : Option Char) : Bool := c.any (fun c => c == ' ' || isWrittenBreak c)

def ofText (cs : List Char) : TextForms :=
  if cs.isEmpty then ⟨true, false, true, true, false⟩
  else
    let multiline := cs.any isWrittenBreak
    let quotedOnly := hasSpaceBreak cs || cs.any isSpecial
    let indicators :=
      startsLikeMark cs || leadsBadly cs || hasIndicator (cs.head?.any isGap) (cs.drop 1)
    { isEmpty := false
      multiline := multiline
      plain := !(isEdge cs.head? || isEdge cs.getLast? || hasBreakSpace cs || quotedOnly || multiline || indicators)
      singleQuoted := !(hasBreakSpace cs || quotedOnly)
      block := !(cs.getLast? == some ' ' || quotedOnly) }

end TextForms
end TopologyConfig.Yaml
