import TopologyConfig.Text.Case
import TopologyConfig.Text.PrintableTable

/-!
The quoted form of texts and byte strings in messages: single quotes unless the text holds one and no
double quote, and every invisible character escaped.
-/
namespace TopologyConfig.Text

/-- The character has a visible form, or is the space. -/
def isVisible (c : Char) : Bool :=
  if c.toNat < 127 then 32 ≤ c.toNat else !inRuns invisibleBounds c.toNat

def hex (width n : Nat) : List Char :=
  (List.range width).reverse.map (fun i => Nat.digitChar (n / Nat.pow 16 i % 16))

def numericEscape (c : Char) : List Char :=
  let n := c.toNat
  if n < 0x100 then '\\' :: 'x' :: hex 2 n
  else if n < 0x10000 then '\\' :: 'u' :: hex 4 n
  else '\\' :: 'U' :: hex 8 n

def quoteMark (single double : Bool) : Char :=
  if single && !double then '"' else '\''

def quoteChar (mark c : Char) : List Char :=
  if c == '\\' || c == mark then ['\\', c]
  else if c == '\n' then ['\\', 'n']
  else if c == '\r' then ['\\', 'r']
  else if c == '\t' then ['\\', 't']
  else if isVisible c then [c]
  else numericEscape c

def quoted (s : String) : String :=
  let cs := s.toList
  let mark := quoteMark (cs.contains '\'') (cs.contains '"')
  String.ofList (mark :: cs.flatMap (quoteChar mark) ++ [mark])

def quoteByte (mark : Char) (b : UInt8) : List Char :=
  let c := Char.ofNat b.toNat
  if b.toNat < 127 then quoteChar mark c else '\\' :: 'x' :: hex 2 b.toNat

def quotedBytes (bytes : List UInt8) : String :=
  let mark := quoteMark (bytes.contains 39) (bytes.contains 34)
  String.ofList ('b' :: mark :: bytes.flatMap (quoteByte mark) ++ [mark])

end TopologyConfig.Text
