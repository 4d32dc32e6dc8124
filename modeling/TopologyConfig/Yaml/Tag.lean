/-!
Tags say what a node stands for. A plain scalar without a tag gets one from its text: the forms of truth
values, numbers, null and timestamps are fixed, and everything else is a string.
-/
namespace TopologyConfig.Yaml

inductive Tag where
  | null
  | bool
  | int
  | float
  | binary
  | timestamp
  | orderedMap
  | pairs
  | set
  | str
  | seq
  | map
  | merge
  | value
  | other (name : String)
deriving DecidableEq

namespace Tag

def standardStart : String := "tag:yaml.org,2002:"

def standard : List (String × Tag) := [
  ("null", null), ("bool", bool), ("int", int), ("float", float), ("binary", binary),
  ("timestamp", timestamp), ("omap", orderedMap), ("pairs", pairs), ("set", set), ("str", str), ("seq", seq),
  ("map", map), ("merge", merge), ("value", value)]

def ofName (name : String) : Tag :=
  match standard.find? (fun t => standardStart ++ t.1 == name) with
  | some t => t.2
  | none => other name

def shortName (t : Tag) : String :=
  match standard.find? (·.2 == t) with
  | some s => "!!" ++ s.1
  | none => ""

end Tag

/-! The forms that give a plain scalar its tag. -/

namespace Plain

def isDigit (c : Char) : Bool := c.isDigit

def isGrouped (c : Char) : Bool := c.isDigit || c == '_'

def dropSign : List Char → List Char
  | '-' :: cs => cs
  | '+' :: cs => cs
  | cs => cs

/-- A form may be followed by one line feed. -/
def atEnd (cs : List Char) : Bool := cs.isEmpty || cs == ['\n']

def isWord (words : List String) (cs : List Char) : Bool :=
  words.any (fun w => w.toList.isPrefixOf cs && atEnd (cs.drop w.length))

def boolWords : List String := [
  "yes", "Yes", "YES", "no", "No", "NO", "true", "True", "TRUE", "false", "False", "FALSE", "on", "On", "ON",
  "off", "Off", "OFF"]

def nullWords : List String := ["~", "null", "Null", "NULL"]

def someOf (p : Char → Bool) (cs : List Char) : Bool :=
  !(cs.takeWhile p).isEmpty && atEnd (cs.dropWhile p)

/-- The rest of a number of base sixty: what follows its parts of at most two digits. -/
def dropSixties : Nat → List Char → List Char
  | 0, cs => cs
  | fuel + 1, cs =>
    match cs with
    | ':' :: a :: b :: rest =>
      if '0' ≤ a && a ≤ '5' && b.isDigit then dropSixties fuel rest
      else if a.isDigit then dropSixties fuel (b :: rest)
      else cs
    | ':' :: a :: rest => if a.isDigit then dropSixties fuel rest else cs
    | cs => cs

def sixties? (cs : List Char) : Option (List Char) :=
  let rest := dropSixties cs.length cs
  if rest.length < cs.length then some rest else none

def isInt (cs : List Char) : Bool :=
  match dropSign cs with
  | '0' :: 'b' :: ds => someOf (fun c => c == '0' || c == '1' || c == '_') ds
  | '0' :: 'x' :: ds =>
    someOf (fun c => c.isDigit || ('a' ≤ c && c ≤ 'f') || ('A' ≤ c && c ≤ 'F') || c == '_') ds
  | '0' :: ds => atEnd ds || someOf (fun c => ('0' ≤ c && c ≤ '7') || c == '_') ds
  | d :: ds =>
    d.isDigit &&
      (let rest := ds.dropWhile isGrouped
       atEnd rest || (sixties? rest).any atEnd)
  | [] => false

def exponentEnd : List Char → Bool
  | e :: sign :: ds =>
    if (e == 'e' || e == 'E') && (sign == '+' || sign == '-') then someOf isDigit ds
    else atEnd (e :: sign :: ds)
  | cs => atEnd cs

def decimalEnd : List Char → Bool
  | '.' :: ds => exponentEnd (ds.dropWhile isGrouped)
  | _ => false

def isFloat (cs : List Char) : Bool :=
  isWord [".nan", ".NaN", ".NAN"] cs || isWord [".inf", ".Inf", ".INF"] (dropSign cs) ||
    (match cs with
      | '.' :: d :: ds => d.isDigit && exponentEnd (ds.dropWhile isGrouped)
      | _ => false) ||
    (match dropSign cs with
      | d :: ds =>
        d.isDigit &&
          (let rest := ds.dropWhile isGrouped
           decimalEnd rest ||
            (match sixties? rest with
              | some ('.' :: more) => atEnd (more.dropWhile isGrouped)
              | _ => false))
      | [] => false)

def digits? (least most : Nat) (cs : List Char) : Option (List Char × List Char) :=
  let ds := (cs.take most).takeWhile isDigit
  if ds.length < least then none else some (ds, cs.drop ds.length)

def mark? (c : Char) : List Char → Option (List Char)
  | x :: rest => if x = c then some rest else none
  | [] => none

def isBlankChar (c : Char) : Bool := c == ' ' || c == '\t'

structure Zone where
  negative : Bool
  hours : List Char
  minutes : List Char

structure TimestampParts where
  year : List Char
  month : List Char
  day : List Char
  clock : Option (List Char × List Char × List Char × List Char)
  zone : Option Zone

def zone? (cs : List Char) : Option (Option Zone) :=
  if atEnd cs then some none
  else
    match cs.dropWhile isBlankChar with
    | 'Z' :: rest => if atEnd rest then some (some ⟨false, ['0'], []⟩) else none
    | sign :: rest =>
      if sign == '+' || sign == '-' then do
        let (hours, rest) ← digits? 1 2 rest
        if atEnd rest then pure (some ⟨sign == '-', hours, []⟩)
        else do
          let (minutes, rest) ← digits? 2 2 (← mark? ':' rest)
          if atEnd rest then pure (some ⟨sign == '-', hours, minutes⟩) else none
      else none
    | [] => none

def dropTimeMark? : List Char → Option (List Char)
  | 'T' :: rest => some rest
  | 't' :: rest => some rest
  | c :: rest => if isBlankChar c then some (rest.dropWhile isBlankChar) else none
  | [] => none

def timestamp? (cs : List Char) : Option TimestampParts := do
  let (year, cs) ← digits? 4 4 cs
  let (month, cs) ← digits? 1 2 (← mark? '-' cs)
  let (day, cs) ← digits? 1 2 (← mark? '-' cs)
  let (hour, cs) ← digits? 1 2 (← dropTimeMark? cs)
  let (minute, cs) ← digits? 2 2 (← mark? ':' cs)
  let (second, cs) ← digits? 2 2 (← mark? ':' cs)
  let fraction := match cs with
    | '.' :: rest => rest.takeWhile isDigit
    | _ => []
  let cs := match cs with
    | '.' :: rest => rest.dropWhile isDigit
    | cs => cs
  let zone ← zone? cs
  pure ⟨year, month, day, some (hour, minute, second, fraction), zone⟩

def date? (cs : List Char) : Option TimestampParts := do
  let (year, cs) ← digits? 4 4 cs
  let (month, cs) ← digits? 1 2 (← mark? '-' cs)
  let (day, cs) ← digits? 1 2 (← mark? '-' cs)
  if atEnd cs then pure ⟨year, month, day, none, none⟩ else none

/-- A timestamp, or a date with all its digits. -/
def isTimestamp (cs : List Char) : Bool :=
  (timestamp? cs).isSome || (date? cs).any (fun p => p.month.length == 2 && p.day.length == 2)

end Plain

def Tag.ofPlain (text : String) : Tag :=
  let cs := text.toList
  if Plain.isWord Plain.boolWords cs then bool
  else if Plain.isFloat cs then float
  else if Plain.isInt cs then int
  else if Plain.isWord ["<<"] cs then merge
  else if cs.isEmpty || Plain.isWord Plain.nullWords cs then null
  else if Plain.isTimestamp cs then timestamp
  else if Plain.isWord ["="] cs then value
  else if Plain.isWord ["!", "&", "*"] cs then other (standardStart ++ "yaml")
  else str

end TopologyConfig.Yaml
