import TopologyConfig.Text.Quoted
import TopologyConfig.Yaml.TextForm

/-!
The sheet that YAML is written on: what is written so far, the column, and whether the last thing written
was white space. Words wrap at the right margin, and indicators keep their distance.
-/
namespace TopologyConfig.Yaml

structure Sheet where
  reversed : List Char := []
  column : Nat := 0
  /-- The next indicator needs no space in front of it. -/
  spaced : Bool := true
  indenting : Bool := true

namespace Sheet

def margin : Nat := 80

def text (s : Sheet) : String := String.ofList s.reversed.reverse

def put (s : Sheet) (cs : List Char) : Sheet :=
  { s with reversed := cs.reverse ++ s.reversed, column := s.column + cs.length }

def breakLine (s : Sheet) (c : Char) : Sheet :=
  { reversed := c :: s.reversed, column := 0, spaced := true, indenting := true }

/-- Goes to the indentation, on a new line unless the present one has nothing beyond it. -/
def indent (s : Sheet) (n : Nat) : Sheet :=
  let s :=
    if !s.indenting || s.column > n || (s.column == n && !s.spaced) then s.breakLine '\n' else s
  if s.column < n then { s.put (List.replicate (n - s.column) ' ') with spaced := true } else s

def mark (s : Sheet) (cs : List Char) : Sheet := { s.put cs with spaced := false, indenting := false }

def word (s : Sheet) (cs : List Char) : Sheet := s.mark (if s.spaced then cs else ' ' :: cs)

def indentWord (s : Sheet) (cs : List Char) : Sheet := { s.word cs with indenting := s.indenting }

def wrap (s : Sheet) (n : Nat) : Sheet := { s.indent n with spaced := false, indenting := false }

end Sheet

def runs (classOf : Char → Nat) : List Char → List (List Char)
  | [] => []
  | c :: rest =>
    match runs classOf rest with
    | (d :: run) :: more => if classOf c = classOf d then (c :: d :: run) :: more else [c] :: (d :: run) :: more
    | more => [c] :: more

def spaceClass (c : Char) : Nat := if c == ' ' then 1 else if TextForms.isWrittenBreak c then 2 else 0

namespace Sheet

/-- Writes the runs of a plain text. A single space between words may become a line break. -/
def plainRuns (split : Bool) (n : Nat) : List (List Char) → Sheet → Sheet
  | [], s => s
  | run :: rest, s =>
    if run == [' '] && s.column > margin && split then plainRuns split n rest (s.wrap n)
    else plainRuns split n rest (s.put run)

def plain (s : Sheet) (split : Bool) (n : Nat) (cs : List Char) : Sheet :=
  let s := if s.spaced then s else s.put [' ']
  plainRuns split n (runs spaceClass cs) { s with spaced := false, indenting := false }

/-- Writes a run of line breaks; the first line feed is doubled, because a single one reads as a space. -/
def breaks (s : Sheet) (n : Nat) (run : List Char) : Sheet :=
  let s := if run.head? == some '\n' then s.breakLine '\n' else s
  (run.foldl breakLine s).indent n

def singleRuns (split : Bool) (n : Nat) (first : Bool) : List (List Char) → Sheet → Sheet
  | [], s => s
  | run :: rest, s =>
    let s :=
      if run.any TextForms.isWrittenBreak then s.breaks n run
      else if run == [' '] then
        if s.column > margin && split && !first && !rest.isEmpty then s.indent n else s.put run
      else s.put (run.flatMap (fun c => if c == '\'' then ['\'', '\''] else [c]))
    singleRuns split n false rest s

def single (s : Sheet) (split : Bool) (n : Nat) (cs : List Char) : Sheet :=
  (singleRuns split n true (runs spaceClass cs) (s.word ['\''])).mark ['\'']

def letters : List (Char × Char) := [
  ('\x00', '0'), ('\x07', 'a'), ('\x08', 'b'), ('\t', 't'), ('\n', 'n'), ('\x0b', 'v'), ('\x0c', 'f'),
  ('\r', 'r'), ('\x1b', 'e'), ('"', '"'), ('\\', '\\'), ('\x85', 'N'), ('\xa0', '_'), ('\u2028', 'L'),
  ('\u2029', 'P')]

def isEscaped (c : Char) : Bool :=
  let n := c.toNat
  c == '"' || c == '\\' || c == '\x85' || c == '\u2028' || c == '\u2029' || c == byteOrderMark ||
    !((0x20 ≤ n && n ≤ 0x7E) || (0xA0 ≤ n && n ≤ 0xD7FF) || (0xE000 ≤ n && n ≤ 0xFFFD))

def upperHex (width n : Nat) : List Char := (Text.hex width n).map Char.toUpper

def escaped (c : Char) : List Char :=
  match letters.lookup c with
  | some x => ['\\', x]
  | none =>
    let n := c.toNat
    if n ≤ 0xFF then '\\' :: 'x' :: upperHex 2 n
    else if n ≤ 0xFFFF then '\\' :: 'u' :: upperHex 4 n
    else '\\' :: 'U' :: upperHex 8 n

/-- Writes characters between double quotes. `held` are those that are not written yet, last one first. A
line is wrapped, after a backslash, before a space or an escape or after an escape. -/
def doubleChars (split : Bool) (n : Nat) (first : Bool) (held : List Char) : List Char → Sheet → Sheet
  | [], s => s.put held.reverse
  | c :: rest, s =>
    let escape := isEscaped c
    let s := if escape then (s.put held.reverse).put (escaped c) else s
    let held := if escape then [] else held
    let room := if escape then margin + 1 else margin
    if !first && !rest.isEmpty && (c == ' ' || held.isEmpty) && s.column + held.length > room && split then
      let s := (s.put (held.reverse ++ ['\\'])).wrap n
      let following := if escape then rest.head? else some c
      let s := if following == some ' ' then s.put ['\\'] else s
      doubleChars split n false (if escape then [] else [c]) rest s
    else doubleChars split n false (if escape then [] else c :: held) rest s

def double (s : Sheet) (split : Bool) (n : Nat) (cs : List Char) : Sheet :=
  (doubleChars split n true [] cs (s.word ['"'])).mark ['"']

def linesOf : List Char → List (List Char)
  | [] => []
  | c :: rest =>
    if c == '\n' then [c] :: linesOf rest
    else
      match linesOf rest with
      | [] => [[c]]
      | line :: more => (c :: line) :: more

def block (s : Sheet) (n : Nat) (cs : List Char) : Sheet :=
  (linesOf cs).foldl
    (fun s line => ((s.indent n).put (line.filter (· != '\n'))).breakLine '\n')
    ((s.word ['|']).breakLine '\n')

end Sheet
end TopologyConfig.Yaml
