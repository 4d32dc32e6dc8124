import TopologyConfig.Logging.Fault
import TopologyConfig.Number.Places

/-!
Templates of log lines: texts with fields in them, such as `%(name)-20s`. A template is read into pieces,
and each piece is filled in from the values of a record's fields.
-/
namespace TopologyConfig.Logging

inductive FieldValue where
  | text (s : String)
  | whole (n : Int)
  | real (x : Binary64)

namespace FieldValue

def typeName : FieldValue → String
  | text _ => "str"
  | whole _ => "int"
  | real _ => "float"

def plain : FieldValue → String
  | text s => s
  | whole n => toString n
  | real x => x.text

def quoted : FieldValue → String
  | text s => Text.quoted s
  | whole n => toString n
  | real x => x.text

end FieldValue

structure Layout where
  toLeft : Bool := false
  plus : Bool := false
  blank : Bool := false
  alternate : Bool := false
  zeroFilled : Bool := false
  width : Nat := 0
  precision : Option Nat := none

namespace Layout

def flag? (l : Layout) (c : Char) : Option Layout :=
  if c = '-' then some { l with toLeft := true }
  else if c = '+' then some { l with plus := true }
  else if c = ' ' then some { l with blank := true }
  else if c = '#' then some { l with alternate := true }
  else if c = '0' then some { l with zeroFilled := true }
  else none

def gap (l : Layout) (used : Nat) (c : Char) : String := String.ofList (List.replicate (l.width - used) c)

def text (l : Layout) (s : String) : String :=
  let cut := match l.precision with
    | some n => String.ofList (s.toList.take n)
    | none => s
  let gap := l.gap cut.length ' '
  if l.toLeft then cut ++ gap else gap ++ cut

def sign (l : Layout) (negative : Bool) : String :=
  if negative then "-" else if l.plus then "+" else if l.blank then " " else ""

def number (l : Layout) (negative : Bool) (mark digits : String) : String :=
  let head := l.sign negative ++ mark
  let used := head.length + digits.length
  if l.toLeft then head ++ digits ++ l.gap used ' '
  else if l.zeroFilled then head ++ l.gap used '0' ++ digits
  else l.gap used ' ' ++ head ++ digits

def atLeast (l : Layout) (digits : String) : String :=
  Places.zeros (l.precision.getD 0 - digits.length) ++ digits

end Layout

structure Conversion where
  layout : Layout
  letter : Char
  position : Nat

inductive Piece where
  | literal (c : Char)
  /-- A field with or without a key. Its width or its precision may be asked of the values by a star, and
  what follows the key may be malformed. -/
  | field (key : Option String) (starred : Bool) (conversion : Except TemplateFault Conversion)

namespace Template

def splitKey : Nat → List Char → Option (List Char × List Char)
  | _, [] => none
  | depth, c :: rest =>
    if c = ')' && depth = 0 then some ([], rest)
    else
      let depth := if c = '(' then depth + 1 else if c = ')' then depth - 1 else depth
      (splitKey depth rest).map (fun r => (c :: r.1, r.2))

def readFlags (l : Layout) : List Char → Layout × List Char
  | [] => (l, [])
  | c :: rest =>
    match l.flag? c with
    | some l => readFlags l rest
    | none => (l, c :: rest)

def readDigits (cs : List Char) : Nat × List Char :=
  (Numeral.value 10 (cs.takeWhile Char.isDigit), cs.dropWhile Char.isDigit)

def readCount (limit : Nat) : List Char → Option Nat × Bool × List Char
  | '*' :: rest => (some 0, true, rest)
  | cs =>
    let (n, rest) := readDigits cs
    (if n ≤ limit then some n else none, false, rest)

def maxWidth : Nat := 9223372036854775807

def maxPrecision : Nat := 2147483647

def passSize : List Char → List Char
  | c :: rest => if ['h', 'l', 'L'].contains c then rest else c :: rest
  | [] => []

/-- Reads the flags, the width and the precision, whether one of these is a star, and what follows. The star
counts also if what stands behind it is out of its limit. -/
def readLayout (cs : List Char) : Bool × Except TemplateFault (Layout × List Char) :=
  let (l, cs) := readFlags {} cs
  match readCount maxWidth cs with
  | (none, starred, _) => (starred, .error .widthTooBig)
  | (some width, starred, cs) =>
    let l := { l with width := width }
    match cs with
    | '.' :: rest =>
      match readCount maxPrecision rest with
      | (none, _, _) => (starred, .error .precisionTooBig)
      | (some precision, alsoStarred, rest) =>
        (starred || alsoStarred, .ok ({ l with precision := some precision }, passSize rest))
    | cs => (starred, .ok (l, passSize cs))

def readConversion (size : Nat) (key : Option String) (cs : List Char) : Piece × List Char :=
  match readLayout cs with
  | (starred, .error f) => (.field key starred (.error f), [])
  | (starred, .ok (_, [])) => (.field key starred (.error .incomplete), [])
  | (starred, .ok (l, c :: rest)) => (.field key starred (.ok ⟨l, c, size - rest.length - 1⟩), rest)

def readField (size : Nat) (cs : List Char) : Piece × List Char :=
  match cs with
  | '%' :: rest => (.literal '%', rest)
  | '(' :: rest =>
    match splitKey 0 rest with
    | none => (.field none false (.error .incompleteKey), [])
    | some (key, rest) => readConversion size (some (String.ofList key)) rest
  | cs => readConversion size none cs

/-- Reads the pieces of a template of `size` characters; each of them takes one step at least. -/
def readPieces (size : Nat) : Nat → List Char → List Piece
  | 0, _ => []
  | _, [] => []
  | fuel + 1, c :: rest =>
    if c = '%' then
      let (piece, rest) := readField size rest
      piece :: readPieces size fuel rest
    else .literal c :: readPieces size fuel rest

def pieces (template : String) : List Piece :=
  let cs := template.toList
  readPieces cs.length cs.length cs

def isWordChar (c : Char) : Bool :=
  c.isAlphanum || c == '_' || Text.inRuns Text.casedBounds c.toNat || (Numeral.decimalValue? c).isSome

def conversionLetters : List Char := "diouxefgcrsa%".toList

def isDecimal (c : Char) : Bool := (Numeral.decimalValue? c).isSome

def skipCount : List Char → List Char
  | '*' :: rest => rest
  | cs => cs.dropWhile isDecimal

/-- A well-formed field with a key stands here. -/
def startsField (cs : List Char) : Bool :=
  match cs with
  | '%' :: '(' :: rest =>
    let key := rest.takeWhile isWordChar
    match rest.dropWhile isWordChar with
    | ')' :: rest =>
      let rest := skipCount (rest.dropWhile (fun c => "#0+ -".toList.contains c))
      let rest := match rest with
        | '.' :: digits => if (skipCount digits).length < digits.length then skipCount digits else rest
        | _ => rest
      match rest with
      | c :: _ => !key.isEmpty && conversionLetters.contains c.toLower
      | [] => false
    | _ => false
  | _ => false

def hasField : List Char → Bool
  | [] => false
  | c :: rest => startsField (c :: rest) || hasField rest

def wholeText (l : Layout) (letter : Char) (n : Int) : String :=
  let digits (base : Nat) : String := l.atLeast (String.ofList (Nat.toDigits base n.natAbs))
  let mark (s : String) : String := if l.alternate then s else ""
  match letter with
  | 'o' => l.number (n < 0) (mark "0o") (digits 8)
  | 'x' => l.number (n < 0) (mark "0x") (digits 16)
  | 'X' => l.number (n < 0) (mark "0X") (digits 16).toUpper
  | _ => l.number (n < 0) "" (digits 10)

def realText (l : Layout) (letter : Char) (x : Binary64) : String :=
  let places := l.precision.getD 6
  let (n, unit) := x.quotient
  let text := match letter.toLower with
    | 'f' => Places.fixed l.alternate places n.natAbs unit
    | 'e' => Places.scientific l.alternate places n.natAbs unit
    | _ => Places.general l.alternate places n.natAbs unit
  l.number x.isNegative "" (if letter.isUpper then text.toUpper else text)

def asciiQuoted (v : FieldValue) : String :=
  String.ofList (v.quoted.toList.flatMap (fun c => if c.toNat < 128 then [c] else Text.numericEscape c))

def characterText (l : Layout) (v : FieldValue) : Except TemplateFault String :=
  let l := { l with precision := none }
  match v with
  | .whole n =>
    if 0 ≤ n && n < 0x110000 then .ok (l.text (String.ofList [Char.ofNat n.toNat]))
    else .error .characterRange
  | .text s => if s.length = 1 then .ok (l.text s) else .error .notCharacter
  | .real _ => .error .notCharacter

def maxDigits : Nat := maxPrecision - 3

/-- Fills in a conversion of whole numbers; a decimal form takes the whole part of other numbers too. -/
def convertWhole (l : Layout) (letter : Char) (v : FieldValue) : Except TemplateFault String :=
  let write (n : Int) : Except TemplateFault String :=
    if maxDigits < l.precision.getD 0 then .error .precisionTooLarge else .ok (wholeText l letter n)
  match v with
  | .whole n => write n
  | .real x =>
    if TemplateFault.isDecimal letter then write x.truncated else .error (.notWhole letter v.typeName)
  | .text _ => .error (.notWhole letter v.typeName)

def convertReal (l : Layout) (letter : Char) (v : FieldValue) : Except TemplateFault String :=
  match v with
  | .whole n =>
    let x := Binary64.ofInt n
    if x.isFinite then .ok (realText l letter x) else .error .beyondReal
  | .real x => .ok (realText l letter x)
  | .text _ => .error (.notNumber v.typeName)

def isWholeLetter (c : Char) : Bool := ['d', 'i', 'u', 'o', 'x', 'X'].contains c

def isRealLetter (c : Char) : Bool := ['e', 'E', 'f', 'F', 'g', 'G'].contains c

def convert (c : Conversion) (v : FieldValue) : Except TemplateFault String :=
  let l := c.layout
  if c.letter = 's' then .ok (l.text v.plain)
  else if c.letter = 'r' then .ok (l.text v.quoted)
  else if c.letter = 'a' then .ok (l.text (asciiQuoted v))
  else if c.letter = 'c' then characterText l v
  else if isWholeLetter c.letter then convertWhole l c.letter v
  else if isRealLetter c.letter then convertReal l c.letter v
  else .error (.unknownConversion c.letter c.position)

/-- Fills in a field from its value. A star takes the value for itself, and none is left for the field. -/
def fillValue (v : FieldValue) (starred : Bool) (conversion : Except TemplateFault Conversion) :
    Except TemplateFault String :=
  match starred, v with
  | true, .whole _ => conversion.bind (fun _ => .error .tooFewValues)
  | true, _ => .error .widthNotWhole
  | false, v => conversion.bind (fun c => convert c v)

def recordFault (c : Conversion) : TemplateFault :=
  if ['s', 'r', 'a'].contains c.letter then .tooFewValues
  else if c.letter = 'c' then .notCharacter
  else if isWholeLetter c.letter then .notWhole c.letter "dict"
  else if isRealLetter c.letter then .notNumber "dict"
  else .unknownConversion c.letter c.position

/-- Why a field without a key cannot be filled in: it would have to take the record as a whole, and not
even that if some value was taken before. -/
def keylessFault (fresh starred : Bool) (conversion : Except TemplateFault Conversion) : TemplateFault :=
  if starred then (if fresh then .widthNotWhole else .tooFewValues)
  else
    match conversion with
    | .error f => f
    | .ok c => if fresh then recordFault c else .tooFewValues

/-- Fills in the pieces one after the other; `fresh` tells that no value was taken so far. -/
def fill (value? : String → Option FieldValue) (fresh : Bool) : List Piece → Except TemplateFault String
  | [] => .ok ""
  | .literal c :: rest => (fill value? fresh rest).map (fun s => String.ofList [c] ++ s)
  | .field none starred conversion :: _ => .error (keylessFault fresh starred conversion)
  | .field (some key) starred conversion :: rest =>
    match value? key with
    | none => .error (.unknownField key)
    | some v => do
      let s ← fillValue v starred conversion
      let others ← fill value? false rest
      .ok (s ++ others)

def messageOnly : String := "%(message)s"

def ofText (template : String) : Except TemplateFault (List Piece) :=
  let template := if template.isEmpty then messageOnly else template
  if hasField template.toList then .ok (pieces template) else .error (.noField template)

end Template
end TopologyConfig.Logging
